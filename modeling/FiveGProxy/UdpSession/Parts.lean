import FiveGProxy.UdpSession.Connection

/-!
# What the handlers of a session leave alone

Every part of a handler is a handler of `UdpSession.Session` on one answer of the kernel, so one
statement covers them (`UdpConn.Part`): the command and the masks stay as they are, nothing that has
moved is forgotten, and what `sendto` accepts and `recvfrom` returns on the 5G socket is counted.
`ConnInv` is what follows for every reachable state.
-/

namespace FiveGProxy

open Memory Steps

/-! ### What the handlers leave alone -/

def Session.fixed (s : Session) := (s.localUdpFd, s.closed, s.rxBytes)

def Session.counters (s : Session) := (s.lenGot, s.frameExpect, s.frameGot)

def Session.Reading (s : Session) : Prop := s.lenGot < 2 ∨ s.frameGot < s.frameExpect

theorem Session.Reading.of_counters {s t : Session} (h : s.Reading)
    (heq : t.counters = s.counters) : t.Reading := by
  simp only [Session.counters, Prod.mk.injEq] at heq
  obtain ⟨hlen, hexpect, hgot⟩ := heq
  rw [Session.Reading, hlen, hexpect, hgot]
  exact h

theorem udpFlushOut_fixed {s t : Session} {rs rest : List SendResult} {ret : Ret}
    (h : udpFlushOut s rs = some (t, ret, rest)) :
    t.fixed = s.fixed ∧ t.counters = s.counters := by
  induction rs generalizing s with
  | nil =>
      unfold udpFlushOut at h
      split_ifs at h <;> cases h <;> exact ⟨rfl, rfl⟩
  | cons r rs ih =>
      unfold udpFlushOut at h
      split_ifs at h
      · cases r with
        | again | error e =>
            cases h
            exact ⟨rfl, rfl⟩
        | sent k =>
            obtain ⟨hfixed, hcounters⟩ := ih h
            exact ⟨hfixed, hcounters⟩
      · cases h
        exact ⟨rfl, rfl⟩

theorem finishFrame_fixed (now : Time) (s : Session) : (finishFrame now s).fixed = s.fixed := by
  unfold finishFrame
  split <;> rfl

theorem finishFrame_reading (now : Time) (s : Session) : (finishFrame now s).Reading := by
  unfold finishFrame
  split
  · exact Or.inr ‹_›
  · exact Or.inl Nat.two_pos

theorem checkLenField_fixed (s : Session) : (checkLenField s).1.fixed = s.fixed := by
  unfold checkLenField
  split
  · rfl
  · split <;> rfl

theorem checkLenField_reading (s : Session) (h : (checkLenField s).2 ≠ some .close) :
    (checkLenField s).1.Reading := by
  unfold checkLenField at h ⊢
  by_cases hlt : s.lenGot < 2
  · rw [if_pos hlt]
    exact Or.inl hlt
  · rw [if_neg hlt] at h ⊢
    cases hlen : socks5UdpTcpFrameLen (s.lenBytes 0, s.lenBytes 1) bufferSize with
    | none => simp [hlen] at h
    | some dlen =>
        have hbounds := frameLen_bounds (a := s.lenBytes 0) (b := s.lenBytes 1) hlen
        exact Or.inr (show 0 < dlen by omega)

theorem clientDataTurn_fixed {now : Time} {s : Session} {r : RecvResult}
    {p : Session × Option Ret} (h : clientDataTurn now s r = some p) : p.1.fixed = s.fixed := by
  unfold clientDataTurn at h
  split_ifs at h
  · cases h
    cases r with
    | again | eof | error e => rfl
    | data b bs => exact checkLenField_fixed _
  · obtain ⟨q, hq, rfl⟩ := Option.map_eq_some_iff.mp h
    unfold recvFrameBody at hq
    split_ifs at hq
    cases r <;> cases hq <;> exact finishFrame_fixed now _

theorem clientDataTurn_reading {now : Time} {s : Session} {r : RecvResult}
    {p : Session × Option Ret} (hs : s.Reading) (h : clientDataTurn now s r = some p)
    (hret : p.2 ≠ some .close) : p.1.Reading := by
  unfold clientDataTurn at h
  split_ifs at h
  · cases h
    cases r with
    | again => exact hs
    | eof => exact absurd rfl hret
    | error e => exact absurd rfl hret
    | data b bs => exact checkLenField_reading _ hret
  · obtain ⟨q, -, rfl⟩ := Option.map_eq_some_iff.mp h
    exact finishFrame_reading now q.1

theorem udpLocalTurn_fixed (peer : SrcAddr) (s : Session) (d : Datagram) :
    (udpLocalTurn peer s d).fixed = s.fixed ∧ (udpLocalTurn peer s d).counters = s.counters ∧
      (udpLocalTurn peer s d).outLen = s.outLen ∧ (udpLocalTurn peer s d).outOff = s.outOff := by
  unfold udpLocalTurn
  simp only
  split
  · exact ⟨rfl, rfl, rfl, rfl⟩
  · split
    · exact ⟨rfl, rfl, rfl, rfl⟩
    · split <;> exact ⟨rfl, rfl, rfl, rfl⟩

theorem frameDatagram_fixed {s t : Session} {d : Datagram} (h : frameDatagram s d = some t) :
    t.localUdpFd = s.localUdpFd ∧ t.closed = s.closed ∧ t.counters = s.counters ∧
      t.rxBytes = s.rxBytes + d.payload.length := by
  unfold frameDatagram at h
  simp only at h
  split_ifs at h <;> cases h <;> exact ⟨rfl, rfl, rfl, rfl⟩

/-- What one answer of `recvfrom` does to the session. -/
structure RemoteTurn (s : Session) (r : RecvfromResult) (p : Session × Ret) : Prop where
  localUdpFd : p.1.localUdpFd = s.localUdpFd
  closed : p.1.closed = s.closed
  counters : p.1.counters = s.counters
  rxBytes : p.1.rxBytes = s.rxBytes + r.bytes (recvfromLimit s)
  again : r = .again → p = (s, .ok)
  error : ∀ e, r = .error e → p.2 = .close

theorem remoteToLocal_turn {s : Session} (hfd : 0 ≤ s.localUdpFd) {r : RecvfromResult}
    {p : Session × Ret} (h : remoteToLocal s [r] = some p) : RemoteTurn s r p := by
  have hlimit : recvfromLimit s = bufferSize - 22 := if_pos hfd
  unfold remoteToLocal at h
  split_ifs at h with hcap
  cases r with
  | again =>
      cases h
      exact ⟨rfl, rfl, rfl, rfl, fun _ => rfl, by rintro _ ⟨⟩⟩
  | error e =>
      cases h
      exact ⟨rfl, rfl, rfl, rfl, by rintro ⟨⟩, fun _ _ => rfl⟩
  | data d =>
      simp only at h
      split_ifs at h with hempty
      · cases h
        refine ⟨rfl, rfl, rfl, ?_, by rintro ⟨⟩, by rintro _ ⟨⟩⟩
        rw [RecvfromResult.bytes, hlimit, hempty]
        rfl
      · split at h
        · cases h
          refine ⟨rfl, rfl, rfl, ?_, by rintro ⟨⟩, by rintro _ ⟨⟩⟩
          rw [RecvfromResult.bytes, hlimit]
        · cases h
          refine ⟨rfl, rfl, rfl, ?_, by rintro ⟨⟩, by rintro _ ⟨⟩⟩
          rw [RecvfromResult.bytes, hlimit]

theorem remoteToTcp_turn {s : Session} (hneg : s.localUdpFd < 0) (hout : ¬ 0 < s.outLen)
    {r : RecvfromResult} {p : Session × Ret} (h : remoteToTcp s [r] [] = some p) :
    RemoteTurn s r p := by
  have hlimit : recvfromLimit s = bufferSize - (2 + 22) := if_neg (Int.not_le.mpr hneg)
  unfold remoteToTcp at h
  rw [if_neg hout] at h
  split_ifs at h with hcap
  cases r with
  | again =>
      cases h
      exact ⟨rfl, rfl, rfl, rfl, fun _ => rfl, by rintro _ ⟨⟩⟩
  | error e =>
      cases h
      exact ⟨rfl, rfl, rfl, rfl, by rintro ⟨⟩, fun _ _ => rfl⟩
  | data d =>
      simp only at h
      split_ifs at h with hempty
      · cases h
        refine ⟨rfl, rfl, rfl, ?_, by rintro ⟨⟩, by rintro _ ⟨⟩⟩
        rw [RecvfromResult.bytes, hlimit, hempty]
        rfl
      · obtain ⟨u, hu, h⟩ := Option.bind_eq_some_iff.mp h
        obtain ⟨hfd, hclosed, hcounters, hrx⟩ := frameDatagram_fixed hu
        -- without an answer of `send` the flush stops before its first call
        cases hflush : udpFlushOut u [] with
        | none =>
            rw [hflush] at h
            cases h
        | some q =>
            obtain ⟨v, ret, rest⟩ := q
            obtain ⟨hfixed, hcounters'⟩ := udpFlushOut_fixed hflush
            simp only [Session.fixed, Prod.mk.injEq] at hfixed
            obtain ⟨hfd', hclosed', hrx'⟩ := hfixed
            rw [hflush] at h
            have hp : p.1 = v := by
              cases ret with
              | close =>
                  cases h
                  rfl
              | ok =>
                  cases h
                  rfl
            refine ⟨?_, ?_, ?_, ?_, by rintro ⟨⟩, by rintro _ ⟨⟩⟩ <;> rw [hp]
            · exact hfd'.trans hfd
            · exact hclosed'.trans hclosed
            · exact hcounters'.trans hcounters
            · rw [hrx', hrx, RecvfromResult.bytes, hlimit]

theorem udpRemoteEvent_turn {s : Session} (hgo : ¬ (s.localUdpFd < 0 ∧ 0 < s.outLen))
    {r : RecvfromResult} {p : Session × Ret} (h : udpRemoteEvent [r] [] s = some p) :
    RemoteTurn s r p := by
  unfold udpRemoteEvent at h
  split_ifs at h with hfd
  · exact remoteToLocal_turn hfd h
  · exact remoteToTcp_turn (Int.not_le.mp hfd) (fun hout => hgo ⟨Int.not_le.mp hfd, hout⟩) h

/-! ### The parts of the handlers -/

/-- What `recvfrom` does to the socket. -/
theorem PolledDatagrams.recvfrom_spec (s : PolledDatagrams Datagram) :
    (s.Drained ∧ s.recvfrom = (.again, s)) ∨
      (¬ s.Drained ∧ ∃ e sock, s.recvfrom = (.error e, sock) ∧ sock.queue = s.queue) ∨
      (¬ s.Drained ∧ ∃ d sock, s.recvfrom = (.data d, sock) ∧ s.queue = d :: sock.queue) := by
  obtain ⟨queue, err, hup⟩ := s
  cases err with
  | some e =>
      have hfull : ¬ Drained ⟨queue, some e, hup⟩ := fun h => Option.some_ne_none e h.1
      exact Or.inr (Or.inl ⟨hfull, e, _, rfl, rfl⟩)
  | none =>
      cases queue with
      | nil => exact Or.inl ⟨⟨rfl, rfl⟩, rfl⟩
      | cons d ds =>
          have hfull : ¬ Drained ⟨d :: ds, none, hup⟩ := fun h => List.cons_ne_nil d ds h.2
          exact Or.inr (Or.inr ⟨hfull, d, _, rfl, rfl⟩)

namespace UdpConn

/-- The counts only grow. -/
structure Counts (s t : UdpConn) : Prop where
  moved_le : s.moved ≤ t.moved
  toRemote_le : s.toRemote ≤ t.toRemote
  fromRemote_le : s.fromRemote ≤ t.fromRemote

theorem Counts.refl (s : UdpConn) : Counts s s := ⟨le_rfl, le_rfl, le_rfl⟩

/-- What a part of a handler does, whatever its call answers: the masks stay, and every byte that
went through the 5G socket is counted. -/
structure Part (s t : UdpConn) : Prop where
  localUdpFd : t.session.localUdpFd = s.session.localUdpFd
  closed : t.session.closed = s.session.closed
  clientEvents : t.clientEvents = s.clientEvents
  remoteEvents : t.remoteEvents = s.remoteEvents
  remoteUdpFd : t.remoteUdpFd = s.remoteUdpFd
  counts : Counts s t
  rx : t.session.rxBytes + s.fromRemote = s.session.rxBytes + t.fromRemote
  tx : t.txBytes + s.toRemote = s.txBytes + t.toRemote
  reading : s.session.Reading → t.pc = .close ∨ t.session.Reading
  unsent : s.session.localUdpFd < 0 → s.session.Unsent → t.session.Unsent

theorem Part.refl (s : UdpConn) : Part s s :=
  ⟨rfl, rfl, rfl, rfl, rfl, ⟨le_rfl, le_rfl, le_rfl⟩, rfl, rfl, Or.inr, fun _ h => h⟩

theorem Part.trans {s t u : UdpConn} (h₁ : Part s t) (h₂ : Part t u) (hpc : t.pc ≠ .close) :
    Part s u where
  localUdpFd := h₂.localUdpFd.trans h₁.localUdpFd
  closed := h₂.closed.trans h₁.closed
  clientEvents := h₂.clientEvents.trans h₁.clientEvents
  remoteEvents := h₂.remoteEvents.trans h₁.remoteEvents
  remoteUdpFd := h₂.remoteUdpFd.trans h₁.remoteUdpFd
  counts := ⟨h₁.counts.moved_le.trans h₂.counts.moved_le,
    h₁.counts.toRemote_le.trans h₂.counts.toRemote_le,
    h₁.counts.fromRemote_le.trans h₂.counts.fromRemote_le⟩
  rx := by
    have := h₁.rx
    have := h₂.rx
    omega
  tx := by
    have := h₁.tx
    have := h₂.tx
    omega
  reading := fun h => h₂.reading ((h₁.reading h).resolve_left hpc)
  unsent := fun hneg h => h₂.unsent (h₁.localUdpFd ▸ hneg) (h₁.unsent hneg h)

/-- Only the place and the sockets change, and something may have moved on them. -/
theorem Part.sockets (s : UdpConn) (client : PolledStream)
    (localUdp remote : PolledDatagrams Datagram) (n : ℕ) (pc : UdpPc) :
    Part s { s with
      client := client
      localUdp := localUdp
      remote := remote
      moved := s.moved + n
      pc := pc } :=
  ⟨rfl, rfl, rfl, rfl, rfl, ⟨Nat.le_add_right _ _, le_rfl, le_rfl⟩, rfl, rfl, Or.inr, fun _ h => h⟩

theorem Part.goto (s : UdpConn) (pc : UdpPc) : Part s { s with pc := pc } :=
  Part.sockets s s.client s.localUdp s.remote 0 pc

theorem returned_part (s : UdpConn) (ret : Ret) : Part s (s.returned ret) := by
  cases ret with
  | ok => exact Part.goto s _
  | close => exact Part.goto s _

theorem fails_part (s : UdpConn) (client : PolledStream) (localUdp : PolledDatagrams Datagram)
    (kind : UdpCloseKind) (reason : String) (errno : ℕ) :
    Part s ({ s with client := client, localUdp := localUdp }.fails kind reason errno) :=
  ⟨rfl, rfl, rfl, rfl, rfl, ⟨le_rfl, le_rfl, le_rfl⟩, rfl, rfl, fun _ => Or.inl rfl, fun _ h => h⟩

theorem enterRead_part (s : UdpConn) : Part s s.enterRead := by
  unfold enterRead
  split
  · exact Part.goto s _
  · exact returned_part s _

theorem afterFlush_part (s : UdpConn) : Part s s.afterFlush := by
  unfold afterFlush
  split
  · exact enterRead_part s
  · exact Part.goto s _
  · exact Part.goto s _

theorem afterRoute_part (s : UdpConn) : Part s s.afterRoute := by
  unfold afterRoute
  split <;> exact Part.goto s _

theorem enter_part (s : UdpConn) : Part s s.enter := by
  unfold enter
  split
  · split_ifs
    · unfold enterCtrl
      split_ifs
      · exact fails_part s s.client s.localUdp _ _ _
      · exact Part.goto s _
      · exact returned_part s _
    · exact Part.goto s _
    · exact enterRead_part s
  · exact Part.goto s _
  · exact Part.goto s _

theorem startHandler_part (s : UdpConn) (now : Time) (role : UdpRole) :
    Part s (s.startHandler now role) := by
  have h := enter_part { s with
    session := { s.session with lastActive := now }
    role := role
    now := now
    ev := s.reported role
    clientCtlOk := true
    remoteCtlOk := true }
  exact ⟨h.localUdpFd, h.closed, h.clientEvents, h.remoteEvents, h.remoteUdpFd,
    ⟨h.counts.moved_le, h.counts.toRemote_le, h.counts.fromRemote_le⟩, h.rx,
    h.tx, h.reading, h.unsent⟩

theorem udpSend5g_part (s : UdpConn) (payload : List UInt8) (r : SendResult) :
    Part s (s.udpSend5g payload r) := by
  unfold udpSend5g
  split
  · exact Part.refl s
  · simp only
    cases (s.remote.sendto r).1 with
    | sent k =>
        refine ⟨rfl, rfl, rfl, rfl, rfl, ⟨Nat.le_add_right _ _, Nat.le_add_right _ _, le_rfl⟩,
          rfl, ?_, Or.inr, fun _ h => h⟩
        exact Nat.add_right_comm _ _ _ |>.trans (Nat.add_assoc _ _ _)
    | again | error e =>
        exact ⟨rfl, rfl, rfl, rfl, rfl, ⟨Nat.le_add_right _ _, le_rfl, le_rfl⟩, rfl, rfl, Or.inr,
          fun _ h => h⟩

theorem ctrl_part {s t : UdpConn} {e : UdpConnEvent} (h : s.ctrl e = some t) : Part s t := by
  unfold ctrl at h
  split at h
  · split at h <;> cases h
    · exact Part.sockets s _ s.localUdp s.remote 1 _
    · exact fails_part s _ s.localUdp _ _ _
    · exact Part.sockets s _ s.localUdp s.remote 0 _
    · exact fails_part s _ s.localUdp _ _ _
  · cases h

theorem flushed_part {s : UdpConn} {u : Session} {rs rest : List SendResult} {ret : Ret}
    (h : udpFlushOut s.session rs = some (u, ret, rest)) (sock : PolledStream) (n : ℕ) :
    Part s { s with session := u, client := sock, moved := s.moved + n } := by
  obtain ⟨hfixed, hcounters⟩ := udpFlushOut_fixed h
  simp only [Session.fixed, Prod.mk.injEq] at hfixed
  obtain ⟨hfd, hclosed, hrx⟩ := hfixed
  refine ⟨hfd, hclosed, rfl, rfl, rfl, ⟨Nat.le_add_right _ _, le_rfl, le_rfl⟩, ?_, rfl,
    fun hr => Or.inr ?_,
    fun _ _ => ?_⟩
  · show u.rxBytes + s.fromRemote = s.session.rxBytes + s.fromRemote
    rw [hrx]
  · exact hr.of_counters hcounters
  · exact udpFlushOut_unsent h

theorem flush_part {s t : UdpConn} {e : UdpConnEvent} (hpc : s.pc = .flush)
    (h : s.flush e = some t) : Part s t := by
  have hclose : s.pc ≠ .close := by
    rw [hpc]
    rintro ⟨⟩
  unfold flush at h
  split at h
  · rename_i k
    split_ifs at h
    obtain ⟨⟨u, ret, rest⟩, hflush, rfl⟩ := Option.map_eq_some_iff.mp h
    have hpart := flushed_part hflush
      (s.client.send (s.session.outLen - s.session.outOff) k).2
      (u.sent.length - s.session.sent.length)
    cases ret with
    | close => exact hpart.trans (returned_part _ .close) hclose
    | ok =>
        simp only
        split
        · exact hpart
        · exact hpart.trans (afterFlush_part _) hclose
  · split_ifs at h
    obtain ⟨⟨u, ret, rest⟩, hflush, rfl⟩ := Option.map_eq_some_iff.mp h
    exact (flushed_part hflush s.client 0).trans (afterFlush_part _) hclose
  · cases h

theorem readClient_part {s t : UdpConn} {e : UdpConnEvent} (h : s.readClient e = some t) :
    Part s t := by
  unfold readClient at h
  split_ifs at h with hreading
  · split at h
    · rename_i k
      obtain ⟨⟨u, ret⟩, hturn, rfl⟩ := Option.map_eq_some_iff.mp h
      have hfixed := clientDataTurn_fixed hturn
      simp only [Session.fixed, Prod.mk.injEq] at hfixed
      obtain ⟨hfd, hclosed, hrx⟩ := hfixed
      have hrx' : u.rxBytes + s.fromRemote = s.session.rxBytes + s.fromRemote := by rw [hrx]
      have hread := clientDataTurn_reading hreading hturn
      have hdown := clientDataTurn_downstream hturn
      have hpart : ∀ pc : UdpPc, pc = .close ∨ u.Reading → Part s { s with
          session := u
          client := (s.client.recv s.recvLimit k).2
          moved := s.moved + (u.received.length - s.session.received.length)
          pc := pc } := fun pc hpc =>
        ⟨hfd, hclosed, rfl, rfl, rfl, ⟨Nat.le_add_right _ _, le_rfl, le_rfl⟩, hrx', rfl,
          fun _ => hpc, fun _ h => h.of_downstream hdown⟩
      cases ret with
      | none => exact hpart _ (Or.inr (hread nofun))
      | some ret =>
          cases ret with
          | ok => exact hpart _ (Or.inr (hread nofun))
          | close => exact hpart _ (Or.inl rfl)
    · cases h
  · split at h
    · cases h
      have hfixed := finishFrame_fixed s.now s.session
      simp only [Session.fixed, Prod.mk.injEq] at hfixed
      obtain ⟨hfd, hclosed, hrx⟩ := hfixed
      refine ⟨hfd, hclosed, rfl, rfl, rfl, ⟨le_rfl, le_rfl, le_rfl⟩, ?_, rfl,
        fun _ => Or.inr (finishFrame_reading _ _),
        fun _ h => h.of_downstream (finishFrame_downstream _ _)⟩
      show (finishFrame s.now s.session).rxBytes + s.fromRemote = s.session.rxBytes + s.fromRemote
      rw [hrx]
    · cases h

theorem udpSend5g_pc (s : UdpConn) (payload : List UInt8) (r : SendResult) :
    (s.udpSend5g payload r).pc = s.pc := by
  unfold udpSend5g
  split
  · rfl
  · simp only
    cases (s.remote.sendto r).1 <;> rfl

theorem route_part {s t : UdpConn} {c : RouteCall} {e : UdpConnEvent} (hpc : s.pc = .route c)
    (h : s.route c e = some t) : Part s t := by
  unfold route at h
  split at h
  · cases h
    refine (udpSend5g_part s c.payload _).trans (afterRoute_part _) ?_
    rw [udpSend5g_pc, hpc]
    exact nofun
  · cases h
    exact afterRoute_part s
  · cases h

theorem recvLocal_part {s t : UdpConn} {e : UdpConnEvent} (h : s.recvLocal e = some t) :
    Part s t := by
  unfold recvLocal at h
  split at h
  · split at h <;> cases h
    · exact Part.sockets s s.client _ s.remote 0 _
    · exact fails_part s s.client _ _ _ _
    · rename_i d sock _
      obtain ⟨hfixed, hcounters, hlen, hoff⟩ := udpLocalTurn_fixed s.peer s.session d
      simp only [Session.fixed, Prod.mk.injEq] at hfixed
      obtain ⟨hfd, hclosed, hrx⟩ := hfixed
      refine ⟨hfd, hclosed, rfl, rfl, rfl, ⟨Nat.le_succ _, le_rfl, le_rfl⟩, ?_, rfl,
        fun hr => Or.inr (hr.of_counters hcounters), fun _ hu => ?_⟩
      · show (udpLocalTurn s.peer s.session d).rxBytes + s.fromRemote = _
        rw [hrx]
      · show (udpLocalTurn s.peer s.session d).Unsent
        rw [Session.Unsent, hlen, hoff]
        exact hu
  · cases h

/-- A turn of `recvfrom` on the 5G socket, whatever follows it. -/
theorem received_part {s : UdpConn} {p : Session × Ret} {r : RecvfromResult}
    (hgo : ¬ (s.session.localUdpFd < 0 ∧ 0 < s.session.outLen))
    (hp : udpRemoteEvent [r] [] s.session = some p) (localUdp remote : PolledDatagrams Datagram)
    (n : ℕ) (pc : UdpPc) :
    Part s { s with
      session := p.1
      localUdp := localUdp
      remote := remote
      fromRemote := s.fromRemote + r.bytes (recvfromLimit s.session)
      moved := s.moved + n
      pc := pc } := by
  have hturn := udpRemoteEvent_turn hgo hp
  refine ⟨hturn.localUdpFd, hturn.closed, rfl, rfl, rfl,
    ⟨Nat.le_add_right _ _, le_rfl, Nat.le_add_right _ _⟩, ?_, rfl,
    fun hr => Or.inr (hr.of_counters hturn.counters), fun hneg hu => ?_⟩
  · show p.1.rxBytes + s.fromRemote = s.session.rxBytes + (s.fromRemote + _)
    rw [hturn.rxBytes]
    omega
  · rw [udpRemoteEvent, if_neg (Int.not_le.mpr hneg)] at hp
    exact remoteToTcp_unsent hu hp

theorem recvRemote_part {s t : UdpConn} {e : UdpConnEvent} (h : s.recvRemote e = some t) :
    Part s t := by
  unfold recvRemote at h
  split_ifs at h with hgo
  · split at h
    · cases h
      exact returned_part s .ok
    · cases h
  · split at h
    · obtain ⟨p, hp, rfl⟩ := Option.map_eq_some_iff.mp h
      have hpart := received_part hgo hp
      cases hdata : s.remote.recvfrom.1.isData with
      | true =>
          simp only [if_true]
          by_cases hout : s.session.localUdpFd < 0 ∧ 0 < p.1.outLen
          · rw [if_pos hout]
            exact hpart _ _ 1 .flush
          · rw [if_neg hout]
            exact hpart _ _ 1 s.pc
      | false =>
          cases p.2 with
          | ok => exact hpart _ _ 0 .updateClient
          | close => exact hpart _ _ 0 .close
    · cases h

/-- A step that updates a mask or makes no call in its place. -/
inductive Updates (s : UdpConn) : UdpConn → Prop
  | clientSame (hpc : s.pc = .updateClient) (hsame : s.clientEvents = s.session.clientInterest) :
      Updates s { s with pc := .updateRemote }
  | client (hpc : s.pc = .updateClient) (hne : s.clientEvents ≠ s.session.clientInterest)
      (ok : Bool) :
      Updates s { s with
        toMasked := s.toMasked.armClient ok
        clientCtlOk := ok
        pc := .updateRemote }
  | remoteSame (hpc : s.pc = .updateRemote)
      (hsame : ¬ (s.session.localUdpFd < 0 ∧ 0 ≤ s.remoteUdpFd ∧
        s.remoteEvents ≠ s.session.remoteInterest)) :
      Updates s { s with pc := .wait }
  | remote (hpc : s.pc = .updateRemote) (hneg : s.session.localUdpFd < 0)
      (hne : s.remoteEvents ≠ s.session.remoteInterest) (ok : Bool) :
      Updates s { s with toMasked := s.toMasked.armRemote ok, remoteCtlOk := ok, pc := .wait }

theorem updateClient_updates {s t : UdpConn} {e : UdpConnEvent} (hpc : s.pc = .updateClient)
    (h : s.updateClient e = some t) : Updates s t := by
  unfold updateClient at h
  split_ifs at h with hsame
  · cases e <;> cases h
    exact .clientSame hpc hsame
  · cases e <;> cases h
    exact .client hpc hsame _

theorem updateRemote_updates {s t : UdpConn} {e : UdpConnEvent} (hpc : s.pc = .updateRemote)
    (h : s.updateRemote e = some t) : Updates s t := by
  unfold updateRemote at h
  split_ifs at h with hne
  · cases e <;> cases h
    exact .remote hpc hne.1 hne.2.2 _
  · cases e <;> cases h
    exact .remoteSame hpc hne

/-- The parts of the handlers and the end of an event do nothing else. -/
theorem handle_spec {s t : UdpConn} {e : UdpConnEvent} (h : s.handle e = some t) :
    s.pc ≠ .closed ∧ (s.pc ≠ .close ∧ (Part s t ∨ Updates s t) ∨
      s.pc = .close ∧
        t = { s with session := { s.session with closed := true }, pc := .closed }) := by
  have hother : ∀ {pc : UdpPc}, s.pc = pc → pc ≠ .closed → pc ≠ .close → Part s t ∨ Updates s t →
      s.pc ≠ .closed ∧ (s.pc ≠ .close ∧ (Part s t ∨ Updates s t) ∨ s.pc = .close ∧
        t = { s with session := { s.session with closed := true }, pc := .closed }) := by
    intro pc hpc hclosed hclose hdoes
    rw [hpc]
    exact ⟨hclosed, Or.inl ⟨hclose, hdoes⟩⟩
  unfold handle at h
  split at h
  · cases h
  · rename_i hpc
    exact hother hpc (by rintro ⟨⟩) (by rintro ⟨⟩) (Or.inl (ctrl_part h))
  · rename_i hpc
    exact hother hpc (by rintro ⟨⟩) (by rintro ⟨⟩) (Or.inl (flush_part hpc h))
  · rename_i hpc
    exact hother hpc (by rintro ⟨⟩) (by rintro ⟨⟩) (Or.inl (readClient_part h))
  · rename_i hpc
    exact hother hpc (by rintro ⟨⟩) (by rintro ⟨⟩) (Or.inl (route_part hpc h))
  · rename_i hpc
    exact hother hpc (by rintro ⟨⟩) (by rintro ⟨⟩) (Or.inl (recvLocal_part h))
  · rename_i hpc
    exact hother hpc (by rintro ⟨⟩) (by rintro ⟨⟩) (Or.inl (recvRemote_part h))
  · rename_i hpc
    exact hother hpc (by rintro ⟨⟩) (by rintro ⟨⟩) (Or.inr (updateClient_updates hpc h))
  · rename_i hpc
    exact hother hpc (by rintro ⟨⟩) (by rintro ⟨⟩) (Or.inr (updateRemote_updates hpc h))
  · rename_i hpc
    refine ⟨by rw [hpc]; exact (by rintro ⟨⟩), Or.inr ⟨hpc, ?_⟩⟩
    cases e <;> cases h
    rfl
  · cases h

end UdpConn

/-! ### Reachable states -/

/-- The bits that no update of the masks changes. -/
structure Masked.Watches (m : Masked) : Prop where
  associate : 0 ≤ m.session.localUdpFd → m.clientEvents = ⟨false, false, true, false, false⟩ ∧
    m.remoteEvents = ⟨true, false, false, false, false⟩
  client_epollin : m.session.localUdpFd < 0 → m.clientEvents.epollin = true
  remote : ∃ b, m.remoteEvents = ⟨b, false, false, false, false⟩

theorem Masked.Watches.of_eq {m n : Masked} (h : m.Watches)
    (hfd : n.session.localUdpFd = m.session.localUdpFd) (hclient : n.clientEvents = m.clientEvents)
    (hremote : n.remoteEvents = m.remoteEvents) : n.Watches := by
  refine ⟨?_, ?_, ?_⟩
  · rw [hfd, hclient, hremote]
    exact h.associate
  · rw [hfd, hclient]
    exact h.client_epollin
  · rw [hremote]
    exact h.remote

theorem Masked.Watches.armClient {m : Masked} (h : m.Watches) (ok : Bool) :
    (m.armClient ok).Watches := by
  unfold Masked.armClient
  split
  · refine ⟨fun hfd => ⟨?_, (h.associate hfd).2⟩, fun hneg => ?_, h.remote⟩
    · have hneg : ¬ m.session.localUdpFd < 0 := Int.not_lt.mpr hfd
      simp [Session.clientInterest, hneg]
    · have hneg' : m.session.localUdpFd < 0 := hneg
      simp only [Session.clientInterest, hneg', decide_true, true_and]
      split <;> rfl
  · exact h

theorem Masked.Watches.armRemote {m : Masked} (h : m.Watches) (hneg : m.session.localUdpFd < 0)
    (ok : Bool) : (m.armRemote ok).Watches := by
  unfold Masked.armRemote
  split
  · exact ⟨fun hfd => absurd hneg (Int.not_lt.mpr hfd), h.client_epollin, _, rfl⟩
  · exact h

/-- What holds in every reachable state. -/
structure ConnInv (s : UdpConn) : Prop where
  reading : s.pc = .close ∨ s.pc = .closed ∨ s.session.Reading
  unsent : s.session.localUdpFd < 0 → s.session.Unsent
  watches : s.toMasked.Watches
  remoteUdpFd_nonneg : 0 ≤ s.remoteUdpFd
  opened : s.pc ≠ .closed → s.session.closed = false

theorem UdpConn.udpStartSession_inv (inBuf outBuf lenBytes : ℕ → UInt8) (localUdpFd : ℤ)
    (remoteUdpFd : ℕ) (peer : SrcAddr) (now : Time) :
    ConnInv (UdpConn.udpStartSession inBuf outBuf lenBytes localUdpFd remoteUdpFd peer now) where
  reading := Or.inr (Or.inr (Or.inl Nat.two_pos))
  unsent := fun _ hpos => absurd hpos (lt_irrefl 0)
  watches := by
    refine ⟨fun hfd => ⟨if_pos hfd, rfl⟩, fun hneg => ?_, _, rfl⟩
    have hnot : ¬ 0 ≤ localUdpFd := Int.not_le.mpr hneg
    simp [UdpConn.udpStartSession, hnot]
  remoteUdpFd_nonneg := Int.natCast_nonneg remoteUdpFd
  opened := fun _ => rfl

namespace UdpConn

theorem Part.inv {s t : UdpConn} (hp : Part s t) (h : ConnInv s) (hclose : s.pc ≠ .close)
    (hclosed : s.pc ≠ .closed) : ConnInv t where
  reading := by
    have hreading := (h.reading.resolve_left hclose).resolve_left hclosed
    rcases hp.reading hreading with hpc | hreading
    · exact Or.inl hpc
    · exact Or.inr (Or.inr hreading)
  unsent := fun hneg => hp.unsent (hp.localUdpFd ▸ hneg) (h.unsent (hp.localUdpFd ▸ hneg))
  watches := h.watches.of_eq hp.localUdpFd hp.clientEvents hp.remoteEvents
  remoteUdpFd_nonneg := hp.remoteUdpFd ▸ h.remoteUdpFd_nonneg
  opened := fun _ => hp.closed.trans (h.opened hclosed)

theorem Updates.inv {s t : UdpConn} (hu : Updates s t) (h : ConnInv s) (hclose : s.pc ≠ .close)
    (hclosed : s.pc ≠ .closed) : ConnInv t := by
  have hreading := (h.reading.resolve_left hclose).resolve_left hclosed
  have hopen := h.opened hclosed
  cases hu with
  | clientSame hpc hsame =>
      exact ⟨Or.inr (Or.inr hreading), h.unsent, h.watches, h.remoteUdpFd_nonneg, fun _ => hopen⟩
  | client hpc hne ok =>
      have hsession := s.toMasked.armClient_session ok
      refine ⟨Or.inr (Or.inr ?_), ?_, h.watches.armClient ok, ?_, fun _ => ?_⟩
      · rw [hsession]
        exact hreading
      · rw [hsession]
        exact h.unsent
      · rw [s.toMasked.armClient_remoteUdpFd ok]
        exact h.remoteUdpFd_nonneg
      · rw [hsession]
        exact hopen
  | remoteSame hpc hsame =>
      exact ⟨Or.inr (Or.inr hreading), h.unsent, h.watches, h.remoteUdpFd_nonneg, fun _ => hopen⟩
  | remote hpc hneg hne ok =>
      have hsession := s.toMasked.armRemote_session ok
      refine ⟨Or.inr (Or.inr ?_), ?_, h.watches.armRemote hneg ok, ?_, fun _ => ?_⟩
      · rw [hsession]
        exact hreading
      · rw [hsession]
        exact h.unsent
      · rw [s.toMasked.armRemote_remoteUdpFd ok]
        exact h.remoteUdpFd_nonneg
      · rw [hsession]
        exact hopen

theorem handle_inv {s t : UdpConn} {e : UdpConnEvent} (h : ConnInv s) (ht : s.handle e = some t) :
    ConnInv t := by
  obtain ⟨hclosed, ⟨hclose, hp | hu⟩ | ⟨-, rfl⟩⟩ := handle_spec ht
  · exact hp.inv h hclose hclosed
  · exact hu.inv h hclose hclosed
  · exact ⟨Or.inr (Or.inl rfl), h.unsent, h.watches.of_eq rfl rfl rfl, h.remoteUdpFd_nonneg,
      fun hpc => absurd rfl hpc⟩

theorem network_same {s t : UdpConn} {n : UdpNetwork} (h : s.network n = some t) :
    t.toMasked = s.toMasked ∧ t.pc = s.pc ∧ t.txBytes = s.txBytes ∧ t.toRemote = s.toRemote ∧
      t.fromRemote = s.fromRemote := by
  unfold network at h
  split at h
  · split_ifs at h
    cases h
    exact ⟨rfl, rfl, rfl, rfl, rfl⟩
  all_goals
    cases h
    exact ⟨rfl, rfl, rfl, rfl, rfl⟩

theorem scan_inv {s t : UdpConn} {now : Time} {pendCount : ℕ} (h : ConnInv s)
    (ht : s.scan now pendCount = some t) : ConnInv t := by
  unfold scan at ht
  split_ifs at ht with hpc
  cases ht
  have hclosed : s.pc ≠ .closed := by
    rw [hpc]
    exact nofun
  have hreading : s.session.Reading := by
    rcases h.reading with hpc' | hpc' | hreading
    · rw [hpc] at hpc'
      cases hpc'
    · exact absurd hpc' hclosed
    · exact hreading
  obtain ⟨u, heq, hup, hdown, hclose⟩ := Masked.idleScan_open (h.opened hclosed) now pendCount
  simp only [heq]
  simp only [Session.upstream, Prod.mk.injEq] at hup
  obtain ⟨-, -, hlen, hexpect, hgot, -, -, hfd⟩ := hup
  refine ⟨Or.inr (Or.inr ?_), fun hneg => ?_, h.watches.of_eq hfd rfl rfl, h.remoteUdpFd_nonneg,
    fun hpc' => ?_⟩
  · exact hreading.of_counters (by simp only [Session.counters, hlen, hexpect, hgot])
  · exact (h.unsent (hfd ▸ hneg)).of_downstream hdown
  · rcases hclose with ⟨hopen, -⟩ | ⟨hclosed', -⟩
    · exact hopen
    · exact absurd (if_pos hclosed') hpc'

end UdpConn

theorem udpConnStep_inv {s t : UdpConn} {e : UdpConnEvent} (h : ConnInv s)
    (ht : udpConnStep s e = some t) : ConnInv t := by
  cases e with
  | wakeup now role =>
      simp only [udpConnStep, UdpConn.wakeup] at ht
      split_ifs at ht with hpc
      cases ht
      exact (s.startHandler_part now role).inv h (by rw [hpc.1]; rintro ⟨⟩)
        (by rw [hpc.1]; rintro ⟨⟩)
  | scan now pendCount => exact UdpConn.scan_inv h ht
  | replay payload r =>
      simp only [udpConnStep, UdpConn.replay] at ht
      split_ifs at ht with hpc
      cases ht
      exact (s.udpSend5g_part payload r).inv h (by rw [hpc]; rintro ⟨⟩) (by rw [hpc]; rintro ⟨⟩)
  | network n =>
      obtain ⟨hm, hpc, -⟩ := UdpConn.network_same ht
      obtain ⟨hreading, hunsent, hwatches, hfd, hopened⟩ := h
      exact ⟨by rw [hpc, hm]; exact hreading, by rw [hm]; exact hunsent, by rw [hm]; exact hwatches,
        by rw [hm]; exact hfd, by rw [hpc, hm]; exact hopened⟩
  | _ => exact UdpConn.handle_inv h ht

end FiveGProxy
