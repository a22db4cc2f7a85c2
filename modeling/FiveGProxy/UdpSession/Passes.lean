import FiveGProxy.UdpSession.Parts

/-!
# The passes of a session with command 0x04

What one part of a handler does to the two directions of a session with command 0x04, to the bytes
and datagrams that wait in the kernel, and to the work that is left in the pass (`TcpPart`). What a
`recv` takes from the socket is in the record of the session afterwards, and a handler that returns
without closing the session has found its socket empty, or has a frame to wait for. Every part
lowers `passWeight`, so a pass comes to its end.
-/

namespace FiveGProxy

open Memory Steps

def Datagram.cut (d : Datagram) : Datagram := ⟨d.src, d.payload.take (bufferSize - (2 + 22))⟩

/-- The non-empty ones of the datagrams that `recvfrom` has returned. -/
def nonEmpty (ds : List Datagram) : List Datagram :=
  (ds.map Datagram.cut).filter fun d => d.payload ≠ []

theorem nonEmpty_append (ds es : List Datagram) :
    nonEmpty (ds ++ es) = nonEmpty ds ++ nonEmpty es := by
  simp [nonEmpty]

/-! ### One call -/

/-- What `recv` returns is what leaves the queue of the socket. -/
theorem PolledStream.recv_data {s sock : PolledStream} {limit k : ℕ} {b : UInt8} {bs : List UInt8}
    (h : s.recv limit k = (.data b bs, sock)) :
    RecvResult.bytes b bs limit ++ sock.rx = s.rx ∧ sock.rx.length < s.rx.length := by
  unfold recv at h
  have hsplit := List.take_append_drop (min (k + 1) limit) s.rx
  have hlen := List.length_take_le (min (k + 1) limit) s.rx
  split at h
  · rename_i c cs htake
    cases h
    rw [htake] at hsplit hlen
    have hle : (b :: bs).length ≤ limit := Nat.le_trans hlen (Nat.min_le_right _ _)
    rw [RecvResult.bytes, List.take_of_length_le hle]
    refine ⟨hsplit, ?_⟩
    have hcount := congrArg List.length hsplit
    simp only [List.length_append, List.length_cons] at hcount
    show (s.rx.drop (min (k + 1) limit)).length < s.rx.length
    omega
  · split at h
    · cases h
    · split_ifs at h <;> cases h

theorem PolledStream.recv_rx {s sock : PolledStream} {limit k : ℕ} {r : RecvResult}
    (h : s.recv limit k = (r, sock)) (hr : ∀ b bs, r ≠ .data b bs) : sock.rx = s.rx := by
  unfold recv at h
  split at h
  · cases h
    exact absurd rfl (hr _ _)
  · split at h
    · cases h
      rfl
    · split_ifs at h <;> cases h <;> rfl

theorem PolledStream.recv_again {s sock : PolledStream} {limit k : ℕ}
    (h : s.recv limit k = (.again, sock)) : sock = s := by
  unfold recv at h
  split at h
  · cases h
  · split at h
    · cases h
    · split_ifs at h <;> exact (Prod.mk.inj h).2.symm

theorem PolledStream.send_rx (s : PolledStream) (n k : ℕ) : (s.send n k).2.rx = s.rx := by
  unfold send
  split
  · rfl
  · split <;> rfl

theorem PolledDatagrams.sendto_queue {α : Type} (s : PolledDatagrams α) (r : SendResult) :
    (s.sendto r).2.queue = s.queue := by
  unfold sendto
  split <;> rfl

theorem checkLenField_received (s : Session) : (checkLenField s).1.received = s.received := by
  unfold checkLenField
  split
  · rfl
  · split <;> rfl

theorem finishFrame_received (now : Time) (s : Session) :
    (finishFrame now s).received = s.received := by
  unfold finishFrame
  split <;> rfl

/-- How many bytes the next `recv` from the client asks for. -/
theorem UdpConn.recvLimit_pos {s : UdpConn} (h : s.session.Reading) : 0 < s.recvLimit := by
  unfold recvLimit
  split
  case isTrue hlt => exact Nat.sub_pos_of_lt hlt
  case isFalse hge => exact Nat.sub_pos_of_lt (h.resolve_left hge)

/-- The record of a turn: the bytes of its `recv`, and nothing without data. -/
theorem clientDataTurn_received {c : UdpConn} {r : RecvResult} {p : Session × Option Ret}
    (h : clientDataTurn c.now c.session r = some p) :
    (∀ b bs, r = .data b bs →
      p.1.received = c.session.received ++ RecvResult.bytes b bs c.recvLimit) ∧
    ((∀ b bs, r ≠ .data b bs) → p.1.received = c.session.received) := by
  unfold clientDataTurn at h
  by_cases hlt : c.session.lenGot < 2
  · rw [if_pos hlt] at h
    cases h
    rw [UdpConn.recvLimit, if_pos hlt]
    cases r with
    | again | eof | error => exact ⟨by rintro _ _ ⟨⟩, fun _ => rfl⟩
    | data b bs =>
        refine ⟨?_, fun h => absurd rfl (h b bs)⟩
        rintro _ _ ⟨⟩
        exact checkLenField_received _
  · rw [if_neg hlt] at h
    obtain ⟨q, hq, rfl⟩ := Option.map_eq_some_iff.mp h
    rw [UdpConn.recvLimit, if_neg hlt, finishFrame_received]
    unfold recvFrameBody at hq
    split_ifs at hq
    cases r with
    | again | eof | error =>
        cases hq
        exact ⟨by rintro _ _ ⟨⟩, fun _ => rfl⟩
    | data b bs =>
        cases hq
        refine ⟨?_, fun h => absurd rfl (h b bs)⟩
        rintro _ _ ⟨⟩
        rfl

/-- The reading loop is left without closing the session only when there is nothing to read. -/
theorem clientDataTurn_ok {now : Time} {s : Session} {r : RecvResult} {t : Session}
    (h : clientDataTurn now s r = some (t, some .ok)) : r = .again := by
  unfold clientDataTurn at h
  split_ifs at h
  · rw [Option.some.injEq] at h
    cases r with
    | again => rfl
    | eof | error =>
        cases h
    | data b bs =>
        unfold recvLenField checkLenField at h
        simp only at h
        split at h
        · cases h
        · split at h <;> cases h
  · obtain ⟨q, hq, hret⟩ := Option.map_eq_some_iff.mp h
    unfold recvFrameBody at hq
    split_ifs at hq
    cases r with
    | again => rfl
    | eof | error =>
        cases hq
        cases hret
    | data b bs =>
        cases hq
        cases hret

/-- What follows an answer of the client's socket that is not data. -/
theorem clientDataTurn_stops {now : Time} {s : Session} {r : RecvResult} {p : Session × Option Ret}
    (h : clientDataTurn now s r = some p) (hr : ∀ b bs, r ≠ .data b bs) : p.2 ≠ none := by
  unfold clientDataTurn at h
  split_ifs at h
  · cases h
    cases r with
    | again | eof | error => rintro ⟨⟩
    | data b bs => exact absurd rfl (hr b bs)
  · obtain ⟨q, hq, rfl⟩ := Option.map_eq_some_iff.mp h
    unfold recvFrameBody at hq
    split_ifs at hq
    cases r with
    | again | eof | error =>
        cases hq
        rintro ⟨⟩
    | data b bs => exact absurd rfl (hr b bs)

/-- One `recvfrom` on the 5G socket: a non-empty datagram is recorded and framed. -/
theorem remoteToTcp_one {s : Session} (hout : ¬ 0 < s.outLen) (r : RecvfromResult) :
    ∃ p, remoteToTcp s [r] [] = some p ∧
      (r = .again → p.2 = .ok) ∧ (∀ e, r = .error e → p.2 = .close) ∧
      ((∀ d, r ≠ .data d) → p.1.arrived = s.arrived) ∧
      ∀ d, r = .data d → p.2 = .ok ∧ p.1.arrived = s.arrived ++ nonEmpty [d] := by
  have hcap : bufferSize ≤ udpBufCap := Nat.le_add_right _ _
  unfold remoteToTcp
  rw [if_neg hout, if_pos hcap]
  cases r with
  | again => exact ⟨_, rfl, fun _ => rfl, by rintro _ ⟨⟩, fun _ => rfl, by rintro _ ⟨⟩⟩
  | error e => exact ⟨_, rfl, by rintro ⟨⟩, fun _ _ => rfl, fun _ => rfl, by rintro _ ⟨⟩⟩
  | data d =>
      by_cases hempty : d.payload.take (bufferSize - (2 + 22)) = []
      · simp only [if_pos hempty]
        refine ⟨_, rfl, fun _ => rfl, by rintro _ ⟨⟩, fun h => absurd rfl (h d), ?_⟩
        rintro _ ⟨⟩
        have hnone : nonEmpty [d] = [] := by simp [nonEmpty, Datagram.cut, hempty]
        exact ⟨rfl, by rw [hnone, List.append_nil]⟩
      · simp only [if_neg hempty]
        have hd : Datagram.Received ⟨d.src, d.payload.take (bufferSize - (2 + 22))⟩ :=
          ⟨hempty, List.length_take_le _ _⟩
        have hsome : nonEmpty [d] = [⟨d.src, d.payload.take (bufferSize - (2 + 22))⟩] := by
          simp [nonEmpty, Datagram.cut, hempty]
        obtain ⟨t, ht, -, hoff, hle, -, harrived⟩ := frameDatagram_spec s hd
        obtain ⟨u, ret, rest, hflush, hspec⟩ := udpFlushOut_spec [] hoff hle
        rw [ht, Option.bind_some, hflush]
        have hret : ret = .ok := by
          unfold udpFlushOut at hflush
          split_ifs at hflush <;> cases hflush <;> rfl
        subst hret
        refine ⟨_, rfl, fun _ => rfl, by rintro _ ⟨⟩, fun h => absurd rfl (h d), ?_⟩
        rintro _ ⟨⟩
        refine ⟨?_, ?_⟩
        · cases rest <;> rfl
        · rw [hsome, ← harrived, ← hspec.arrived]

namespace UdpConn

/-! ### One part of a handler -/

def AtPlace (s : UdpConn) : Prop :=
  match s.pc with
  | .flush => s.role = .client ∨ s.role = .remote
  | .readClient | .route _ => s.role = .client ∧ s.ev.epollin = true
  | .recvRemote => s.role = .remote
  | .ctrl | .recvLocal => False
  | .wait | .updateClient | .updateRemote | .close | .closed => True

/-- What holds in every reachable state of a session with command 0x04. -/
structure TcpInv (s : UdpConn) : Prop where
  conn : ConnInv s
  up : UpstreamInv s.session
  down : DownstreamInv s.session
  closing : s.session.closeKind = .proto → s.pc = .close ∨ s.pc = .closed
  place : s.AtPlace

def passOver (s : UdpConn) : Bool :=
  match s.pc with
  | .updateClient | .updateRemote | .wait => true
  | _ => false

/-- The handler has found nothing more in its socket, or a frame is pending. -/
def Exhausted (s : UdpConn) : Prop :=
  match s.role with
  | .client => s.ev.epollin = true → s.client.Drained
  | .remote => 0 < s.session.outLen ∨ s.remote.Drained
  | .localUdp => True

/-- How far the worker is from the end of the pass, when nothing more arrives. -/
def passWeight (s : UdpConn) : ℕ :=
  (match s.pc with
    | .flush => 4 + (s.session.outLen - s.session.outOff)
    | .route _ => 4
    | .readClient | .recvRemote => 3
    | .updateClient => 2
    | .ctrl | .recvLocal | .updateRemote | .close => 1
    | .wait | .closed => 0) +
  2 * s.client.rx.length + (udpBufCap + 2) * s.remote.queue.length

/-- What a part of a handler of a session with command 0x04 does. -/
structure TcpPart (s t : UdpConn) : Prop where
  up : UpstreamInv t.session
  down : DownstreamInv t.session
  closing : t.session.closeKind = .proto → t.pc = .close ∨ t.pc = .closed
  place : t.AtPlace
  role : t.role = s.role
  ev : t.ev = s.ev
  stream : t.session.received ++ t.client.rx = s.session.received ++ s.client.rx
  datagrams : ∃ got, s.remote.queue = got ++ t.remote.queue ∧
    t.session.arrived = s.session.arrived ++ nonEmpty got
  passOver : (s.passOver = true → s.Exhausted) → t.passOver = true → t.Exhausted
  goesOn : t.passWeight < s.passWeight

variable {s t : UdpConn} {e : UdpConnEvent}

theorem TcpInv.opened (h : TcpInv s) (hpc : s.pc ≠ .close ∧ s.pc ≠ .closed) :
    s.session.closeKind ≠ .proto :=
  fun hproto => (h.closing hproto).elim hpc.1 hpc.2

/-- Where the pass goes on when the frame has been flushed as far as possible. -/
theorem afterFlush_tcp {u : UdpConn} (hup : UpstreamInv u.session) (hdown : DownstreamInv u.session)
    (hopen : u.session.closeKind ≠ .proto) (hrole : u.role = .client ∨ u.role = .remote)
    (hsame : u.role = s.role ∧ u.ev = s.ev)
    (hstream : u.session.received ++ u.client.rx = s.session.received ++ s.client.rx)
    (hqueue : u.remote.queue = s.remote.queue) (harrived : u.session.arrived = s.session.arrived)
    (hrx : u.client.rx = s.client.rx) (hpc : s.pc = .flush) : TcpPart s u.afterFlush := by
  have hweight : 3 + 2 * u.client.rx.length + (udpBufCap + 2) * u.remote.queue.length <
      s.passWeight := by
    simp only [passWeight, hpc, hqueue, hrx]
    omega
  have hdatagrams : ∃ got, s.remote.queue = got ++ u.remote.queue ∧
      u.session.arrived = s.session.arrived ++ nonEmpty got :=
    ⟨[], hqueue.symm, by rw [harrived]; exact (List.append_nil _).symm⟩
  rcases hrole with hclient | hremote
  · by_cases hin : u.ev.epollin = true
    · have heq : u.afterFlush = { u with pc := .readClient } := by
        simp only [afterFlush, hclient, enterRead, if_pos hin]
      rw [heq]
      exact ⟨hup, hdown, fun h => absurd h hopen, ⟨hclient, hin⟩, hsame.1, hsame.2, hstream,
        hdatagrams, fun _ hover => absurd hover Bool.false_ne_true, hweight⟩
    · have heq : u.afterFlush = { u with pc := .updateClient } := by
        simp only [afterFlush, hclient, enterRead, if_neg hin, returned]
      rw [heq]
      refine ⟨hup, hdown, fun h => absurd h hopen, trivial, hsame.1, hsame.2, hstream, hdatagrams,
        fun _ _ => ?_, ?_⟩
      · simp only [Exhausted, hclient]
        exact fun h => absurd h hin
      · simp only [passWeight] at hweight ⊢
        omega
  · have heq : u.afterFlush = { u with pc := .recvRemote } := by
      simp only [afterFlush, hremote]
    rw [heq]
    exact ⟨hup, hdown, fun h => absurd h hopen, hremote, hsame.1, hsame.2, hstream, hdatagrams,
      fun _ hover => absurd hover Bool.false_ne_true, hweight⟩

theorem flush_tcp (h : TcpInv s) (hpc : s.pc = .flush) (ht : s.flush e = some t) :
    TcpPart s t := by
  have hopen := h.opened (by rw [hpc]; exact ⟨by rintro ⟨⟩, by rintro ⟨⟩⟩)
  have hplace := h.place
  simp only [AtPlace, hpc] at hplace
  have hflushed : ∀ {rs rest : List SendResult} {u : Session} {ret : Ret},
      udpFlushOut s.session rs = some (u, ret, rest) →
        Flushed s.session u ∧ UpstreamInv u ∧ u.closeKind ≠ .proto ∧
          u.received = s.session.received := by
    intro rs rest u ret hu
    obtain ⟨v, _, _, hv, hspec⟩ := udpFlushOut_spec rs h.down.outOff_le h.down.outLen_le
    obtain ⟨rfl, -⟩ := Prod.mk.inj (Option.some.inj (hv.symm.trans hu))
    obtain ⟨hup, hkind⟩ := udpFlushOut_upstream hu
    have hkind' : v.closeKind ≠ .proto := by
      rcases hkind with hkind | hkind <;> rw [hkind]
      · exact hopen
      · rintro ⟨⟩
    have hreceived := hup
    simp only [Session.upstream, Prod.mk.injEq] at hreceived
    exact ⟨hspec, h.up.of_eq hopen hkind' hup, hkind', hreceived.2.2.2.2.2.1⟩
  unfold flush at ht
  split at ht
  · rename_i k
    split_ifs at ht with hlt
    obtain ⟨⟨u, ret, rest⟩, hu, rfl⟩ := Option.map_eq_some_iff.mp ht
    obtain ⟨hspec, hup, hkind, hreceived⟩ := hflushed hu
    have hrx := s.client.send_rx (s.session.outLen - s.session.outOff) k
    have hstream : u.received ++ (s.client.send (s.session.outLen - s.session.outOff) k).2.rx =
        s.session.received ++ s.client.rx := by rw [hreceived, hrx]
    have hdatagrams : ∃ got, s.remote.queue = got ++ s.remote.queue ∧
        u.arrived = s.session.arrived ++ nonEmpty got :=
      ⟨[], rfl, by rw [hspec.arrived]; exact (List.append_nil _).symm⟩
    cases ret with
    | close =>
        refine ⟨hup, hspec.downstreamInv h.down, fun _ => Or.inl rfl, trivial, rfl, rfl, hstream,
          hdatagrams, fun _ hover => absurd hover Bool.false_ne_true, ?_⟩
        simp only [passWeight, returned, hpc, hrx]
        omega
    | ok =>
        simp only
        split
        case isTrue hmore =>
          rw [Bool.and_eq_true, decide_eq_true_eq] at hmore
          refine ⟨hup, hspec.downstreamInv h.down, fun hproto => absurd hproto hkind, ?_, rfl, rfl,
            hstream, hdatagrams, fun _ hover => ?_, ?_⟩
          · simp only [AtPlace, hpc]
            exact hplace
          · simp only [passOver, hpc] at hover
            exact absurd hover Bool.false_ne_true
          · obtain ⟨j, hj⟩ : ∃ j, (s.client.send (s.session.outLen - s.session.outOff) k).1 =
                .sent j := by
              cases hanswer : (s.client.send (s.session.outLen - s.session.outOff) k).1 with
              | sent j => exact ⟨j, rfl⟩
              | again | error =>
                  rw [hanswer] at hmore
                  exact absurd hmore.1 Bool.false_ne_true
            rw [hj] at hu
            have hsent := udpFlushOut_sent_lt hlt hu
            have hbytes := congrArg List.length hspec.bytes
            simp only [List.length_append, Session.pending, length_slice] at hbytes
            simp only [passWeight, hpc, hrx]
            omega
        case isFalse =>
          exact afterFlush_tcp hup (hspec.downstreamInv h.down) hkind hplace ⟨rfl, rfl⟩ hstream rfl
            hspec.arrived hrx hpc
  · split_ifs at ht
    obtain ⟨⟨u, ret, rest⟩, hu, rfl⟩ := Option.map_eq_some_iff.mp ht
    obtain ⟨hspec, hup, hkind, hreceived⟩ := hflushed hu
    exact afterFlush_tcp hup (hspec.downstreamInv h.down) hkind hplace ⟨rfl, rfl⟩
      (by rw [hreceived]) rfl hspec.arrived rfl hpc
  · cases ht

theorem TcpInv.isReading (h : TcpInv s) (hpc : s.pc ≠ .close ∧ s.pc ≠ .closed) :
    s.session.Reading :=
  (h.conn.reading.resolve_left hpc.1).resolve_left hpc.2

/-- What a turn of the reading loop takes from the socket, and when it ends the loop. -/
theorem recv_turn {k : ℕ} {u : Session} {ret : Option Ret} (hreading : s.session.Reading)
    (hturn : clientDataTurn s.now s.session (s.client.recv s.recvLimit k).1 = some (u, ret)) :
    u.received ++ (s.client.recv s.recvLimit k).2.rx = s.session.received ++ s.client.rx ∧
      (s.client.recv s.recvLimit k).2.rx.length ≤ s.client.rx.length ∧
      (ret = none → (s.client.recv s.recvLimit k).2.rx.length < s.client.rx.length) ∧
      (ret = some .ok → (s.client.recv s.recvLimit k).2.Drained) := by
  generalize hanswer : s.client.recv s.recvLimit k = answer at hturn ⊢
  obtain ⟨r, sock⟩ := answer
  dsimp only at hturn ⊢
  obtain ⟨hdata, hnone⟩ := clientDataTurn_received hturn
  have hend : ret = some .ok → sock.Drained := by
    rintro rfl
    obtain rfl := clientDataTurn_ok hturn
    rw [PolledStream.recv_again hanswer]
    exact PolledStream.recv_eq_again (recvLimit_pos hreading) hanswer
  by_cases hr : ∀ b bs, r ≠ .data b bs
  · have hrx := PolledStream.recv_rx hanswer hr
    refine ⟨by rw [hnone hr, hrx], le_of_eq (congrArg _ hrx), fun hret => ?_, hend⟩
    exact absurd hret (clientDataTurn_stops hturn hr)
  · simp only [not_forall, not_not] at hr
    obtain ⟨b, bs, rfl⟩ := hr
    obtain ⟨hrx, hlt⟩ := PolledStream.recv_data hanswer
    refine ⟨?_, le_of_lt hlt, fun _ => hlt, hend⟩
    rw [hdata b bs rfl, ← hrx, List.append_assoc]

theorem routeNext_cases (s : UdpConn) (u : Session) (next : UdpPc) :
    s.routeNext u next = next ∨ ∃ c, s.routeNext u next = .route c := by
  unfold routeNext
  split
  · exact Or.inr ⟨_, rfl⟩
  · exact Or.inl rfl

theorem readClient_tcp (h : TcpInv s) (hpc : s.pc = .readClient) (ht : s.readClient e = some t) :
    TcpPart s t := by
  have hgo : s.pc ≠ .close ∧ s.pc ≠ .closed := by
    rw [hpc]
    exact ⟨by rintro ⟨⟩, by rintro ⟨⟩⟩
  have hopen := h.opened hgo
  have hplace : s.role = .client ∧ s.ev.epollin = true := by
    have hplace := h.place
    rwa [AtPlace, hpc] at hplace
  have hreading := h.isReading hgo
  unfold readClient at ht
  rw [if_pos (show s.session.lenGot < 2 ∨ _ from hreading)] at ht
  split at ht
  · rename_i k
    obtain ⟨⟨u, ret⟩, hturn, rfl⟩ := Option.map_eq_some_iff.mp ht
    obtain ⟨_, hturn', hup, hclose⟩ :=
      clientDataTurn_inv h.up hopen s.now (s.client.recv s.recvLimit k).1
    obtain rfl := Option.some.inj (hturn'.symm.trans hturn)
    have hsame := clientDataTurn_downstream hturn
    have hdown := h.down.of_eq hsame
    obtain ⟨hstream, hle, hlt, hdrained⟩ := recv_turn hreading hturn
    have hdatagrams : ∃ got, s.remote.queue = got ++ s.remote.queue ∧
        u.arrived = s.session.arrived ++ nonEmpty got := by
      simp only [Session.downstream, Prod.mk.injEq] at hsame
      exact ⟨[], rfl, by rw [hsame.2.2.2.2]; exact (List.append_nil _).symm⟩
    cases ret with
    | some ret =>
        cases ret with
        | close =>
            refine ⟨hup, hdown, fun _ => Or.inl rfl, trivial, rfl, rfl, hstream, hdatagrams,
              fun _ hover => absurd hover Bool.false_ne_true, ?_⟩
            simp only [passWeight, returned, hpc]
            omega
        | ok =>
            refine ⟨hup, hdown, fun hproto => ?_, trivial, rfl, rfl, hstream, hdatagrams,
              fun _ _ => ?_, ?_⟩
            · cases hclose hproto
            · simp only [Exhausted, returned, hplace.1]
              exact fun _ => hdrained rfl
            · simp only [passWeight, returned, hpc]
              omega
    | none =>
        have hless := hlt rfl
        have hproto : u.closeKind ≠ .proto := fun hproto => by cases hclose hproto
        simp only
        rcases s.routeNext_cases u .readClient with hnext | ⟨c, hnext⟩ <;> rw [hnext]
        · refine ⟨hup, hdown, fun h => absurd h hproto, hplace, rfl, rfl, hstream, hdatagrams,
            fun _ hover => absurd hover Bool.false_ne_true, ?_⟩
          simp only [passWeight, hpc]
          omega
        · refine ⟨hup, hdown, fun h => absurd h hproto, hplace, rfl, rfl, hstream, hdatagrams,
            fun _ hover => absurd hover Bool.false_ne_true, ?_⟩
          simp only [passWeight, hpc]
          omega
  · cases ht

theorem udpSend5g_same (s : UdpConn) (payload : List UInt8) (r : SendResult) :
    (s.udpSend5g payload r).session = s.session ∧ (s.udpSend5g payload r).client = s.client ∧
      (s.udpSend5g payload r).role = s.role ∧ (s.udpSend5g payload r).ev = s.ev ∧
      (s.udpSend5g payload r).remote.queue = s.remote.queue := by
  have hqueue := s.remote.sendto_queue r
  unfold udpSend5g
  split
  · exact ⟨rfl, rfl, rfl, rfl, rfl⟩
  · simp only
    split <;> exact ⟨rfl, rfl, rfl, rfl, hqueue⟩

theorem route_tcp {c : RouteCall} (h : TcpInv s) (hpc : s.pc = .route c)
    (ht : s.route c e = some t) : TcpPart s t := by
  have hopen := h.opened (by rw [hpc]; exact ⟨by rintro ⟨⟩, by rintro ⟨⟩⟩)
  have hplace : s.role = .client ∧ s.ev.epollin = true := by
    have hplace := h.place
    rwa [AtPlace, hpc] at hplace
  have hgo : ∀ u : UdpConn, u.session = s.session → u.client = s.client → u.role = s.role →
      u.ev = s.ev → u.remote.queue = s.remote.queue → TcpPart s u.afterRoute := by
    intro u hsession hclient hsame hev hqueue
    have heq : u.afterRoute = { u with pc := .readClient } := by
      rw [afterRoute, hsame, hplace.1]
    rw [heq]
    refine ⟨?_, ?_, ?_, ⟨hsame.trans hplace.1, hev ▸ hplace.2⟩, hsame, hev, ?_, ⟨[], hqueue.symm, ?_⟩,
      fun _ hover => absurd hover Bool.false_ne_true, ?_⟩
    · exact hsession ▸ h.up
    · exact hsession ▸ h.down
    · exact fun hproto => absurd (hsession ▸ hproto) hopen
    · simp only [hsession, hclient]
    · simp only [hsession]
      exact (List.append_nil _).symm
    · simp only [passWeight, hpc, hclient, hqueue]
      omega
  unfold route at ht
  split at ht
  · rename_i r
    cases ht
    obtain ⟨hsession, hclient, hrole, hev, hqueue⟩ := s.udpSend5g_same c.payload r
    exact hgo _ hsession hclient hrole hev hqueue
  · cases ht
    exact hgo s rfl rfl rfl rfl rfl
  · cases ht

theorem recvRemote_tcp (h : TcpInv s) (hpc : s.pc = .recvRemote) (ht : s.recvRemote e = some t) :
    TcpPart s t := by
  have hopen := h.opened (by rw [hpc]; exact ⟨by rintro ⟨⟩, by rintro ⟨⟩⟩)
  have hrole : s.role = .remote := by
    have hplace := h.place
    rwa [AtPlace, hpc] at hplace
  have hneg := h.up.localUdpFd_neg
  unfold recvRemote at ht
  by_cases hout : 0 < s.session.outLen
  · rw [if_pos ⟨hneg, hout⟩] at ht
    split at ht
    · cases ht
      refine ⟨h.up, h.down, fun hproto => absurd hproto hopen, trivial, rfl, rfl, rfl,
        ⟨[], rfl, (List.append_nil _).symm⟩, fun _ _ => ?_, ?_⟩
      · simp only [Exhausted, returned, hrole]
        exact Or.inl hout
      · simp only [passWeight, returned, hpc]
        omega
    · cases ht
  · rw [if_neg fun hboth => hout hboth.2] at ht
    split at ht
    · obtain ⟨p, hp, rfl⟩ := Option.map_eq_some_iff.mp ht
      rw [udpRemoteEvent, if_neg (Int.not_le.mpr hneg)] at hp
      obtain ⟨hsame, hkind⟩ := remoteToTcp_upstream hp
      obtain ⟨p', hp', hagain, herror, hkept, hgot⟩ := remoteToTcp_one hout s.remote.recvfrom.1
      obtain rfl := Option.some.inj (hp'.symm.trans hp)
      obtain ⟨p, hp'', hdown⟩ := remoteToTcp_inv h.down [s.remote.recvfrom.1] []
      obtain rfl := Option.some.inj (hp''.symm.trans hp)
      have hkind' : p.1.closeKind ≠ .proto := by
        rcases hkind with hkind | hkind <;> rw [hkind]
        · exact hopen
        · rintro ⟨⟩
      have hup := h.up.of_eq hopen hkind' hsame
      have hstream : p.1.received ++ s.client.rx = s.session.received ++ s.client.rx := by
        simp only [Session.upstream, Prod.mk.injEq] at hsame
        rw [hsame.2.2.2.2.2.1]
      have hcap := hdown.outLen_le
      rcases s.remote.recvfrom_spec with
        ⟨hdrained, hanswer⟩ | ⟨-, errno, sock, hanswer, hqueue⟩ | ⟨-, d, sock, hanswer, hqueue⟩
      · rw [hanswer] at hagain hkept
        simp only [hanswer, RecvfromResult.isData, Bool.false_eq_true, if_false, hagain rfl]
        have harrived := hkept (by rintro _ ⟨⟩)
        refine ⟨hup, hdown, fun hproto => absurd hproto hkind', trivial, rfl, rfl, hstream,
          ⟨[], rfl, harrived.trans (List.append_nil _).symm⟩, fun _ _ => ?_, ?_⟩
        · simp only [Exhausted, returned, hrole]
          exact Or.inr hdrained
        · simp only [passWeight, returned, hpc]
          omega
      · rw [hanswer] at herror hkept
        simp only [hanswer, RecvfromResult.isData, Bool.false_eq_true, if_false, herror _ rfl]
        have harrived := hkept (by rintro _ ⟨⟩)
        refine ⟨hup, hdown, fun hproto => absurd hproto hkind', trivial, rfl, rfl, hstream,
          ⟨[], hqueue.symm, harrived.trans (List.append_nil _).symm⟩,
          fun _ hover => absurd hover Bool.false_ne_true, ?_⟩
        simp only [passWeight, returned, hpc, hqueue]
        omega
      · rw [hanswer] at hgot
        obtain ⟨-, harrived⟩ := hgot d rfl
        simp only [hanswer, RecvfromResult.isData, if_true]
        have hlength : s.remote.queue.length = sock.queue.length + 1 := by
          rw [hqueue, List.length_cons]
        split
        case isTrue =>
          refine ⟨hup, hdown, fun hproto => absurd hproto hkind', Or.inr hrole, rfl, rfl, hstream,
            ⟨[d], hqueue, harrived⟩, fun _ hover => absurd hover Bool.false_ne_true, ?_⟩
          simp only [passWeight, hpc, hlength, Nat.mul_add]
          omega
        case isFalse =>
          refine ⟨hup, hdown, fun hproto => absurd hproto hkind', ?_, rfl, rfl, hstream,
            ⟨[d], hqueue, harrived⟩, fun _ hover => ?_, ?_⟩
          · simp only [AtPlace, hpc]
            exact hrole
          · simp only [passOver, hpc] at hover
            exact absurd hover Bool.false_ne_true
          · simp only [passWeight, hpc, hlength, Nat.mul_add]
            omega
    · cases ht

/-- The masks and the place are all that the end of a pass changes. -/
theorem masks_tcp {u : UdpConn} (h : TcpInv s) (hover : s.passOver = true)
    (hsession : u.session = s.session) (hclient : u.client = s.client)
    (hremote : u.remote = s.remote) (hsame : u.role = s.role ∧ u.ev = s.ev) (hplace : u.AtPlace)
    (hweight : u.passWeight < s.passWeight) : TcpPart s u := by
  have hopen : s.session.closeKind ≠ .proto := by
    refine h.opened ⟨fun hpc => ?_, fun hpc => ?_⟩ <;>
    · simp only [passOver, hpc] at hover
      exact Bool.false_ne_true hover
  refine ⟨hsession ▸ h.up, hsession ▸ h.down, fun hproto => absurd (hsession ▸ hproto) hopen,
    hplace, hsame.1, hsame.2, by rw [hsession, hclient],
    ⟨[], by rw [hremote]; rfl, by rw [hsession]; exact (List.append_nil _).symm⟩,
    fun hexhausted _ => ?_, hweight⟩
  have hs := hexhausted hover
  simp only [Exhausted, hsame.1, hsame.2, hsession, hclient, hremote] at hs ⊢
  exact hs

theorem updates_tcp (h : TcpInv s) (hu : Updates s t) : TcpPart s t := by
  cases hu with
  | clientSame hpc hsame =>
      refine masks_tcp h ?_ rfl rfl rfl ⟨rfl, rfl⟩ trivial ?_
      · simp only [passOver, hpc]
      · simp only [passWeight, hpc]
        omega
  | client hpc hne ok =>
      have hsession := s.toMasked.armClient_session ok
      refine masks_tcp h ?_ hsession rfl rfl ⟨rfl, rfl⟩ trivial ?_
      · simp only [passOver, hpc]
      · simp only [passWeight, hpc]
        omega
  | remoteSame hpc hsame =>
      refine masks_tcp h ?_ rfl rfl rfl ⟨rfl, rfl⟩ trivial ?_
      · simp only [passOver, hpc]
      · simp only [passWeight, hpc]
        omega
  | remote hpc hneg hne ok =>
      have hsession := s.toMasked.armRemote_session ok
      refine masks_tcp h ?_ hsession rfl rfl ⟨rfl, rfl⟩ trivial ?_
      · simp only [passOver, hpc]
      · simp only [passWeight, hpc]
        omega

theorem handle_tcp (h : TcpInv s) (ht : s.handle e = some t) : TcpPart s t := by
  have hplace := h.place
  unfold handle at ht
  split at ht
  case h_1 => cases ht
  case h_2 hpc =>
    rw [AtPlace, hpc] at hplace
    exact hplace.elim
  case h_3 hpc => exact flush_tcp h hpc ht
  case h_4 hpc => exact readClient_tcp h hpc ht
  case h_5 hpc => exact route_tcp h hpc ht
  case h_6 hpc =>
    rw [AtPlace, hpc] at hplace
    exact hplace.elim
  case h_7 hpc => exact recvRemote_tcp h hpc ht
  case h_8 hpc => exact updates_tcp h (updateClient_updates hpc ht)
  case h_9 hpc => exact updates_tcp h (updateRemote_updates hpc ht)
  case h_10 hpc =>
    cases e <;> cases ht
    refine ⟨⟨h.up.fed, h.up.lenGot_le, h.up.body, h.up.localUdpFd_neg⟩, h.down.of_eq rfl,
      fun _ => Or.inr rfl, trivial, rfl, rfl, rfl, ⟨[], rfl, (List.append_nil _).symm⟩,
      fun _ hover => absurd hover Bool.false_ne_true, ?_⟩
    simp only [passWeight, hpc]
    omega
  case h_11 => cases ht

/-! ### Every call can be made -/

theorem flush_enabled (h : TcpInv s) (hpc : s.pc = .flush) (k : ℕ) :
    (s.session.outOff < s.session.outLen → ∃ t, udpConnStep s (.send k) = some t) ∧
      (¬ s.session.outOff < s.session.outLen → ∃ t, udpConnStep s .proceed = some t) := by
  simp only [udpConnStep, handle, hpc, flush]
  refine ⟨fun hlt => ?_, fun hge => ?_⟩
  · obtain ⟨u, ret, rest, hu, -⟩ := udpFlushOut_spec
      [(s.client.send (s.session.outLen - s.session.outOff) k).1] h.down.outOff_le h.down.outLen_le
    rw [if_pos hlt, hu]
    exact ⟨_, rfl⟩
  · obtain ⟨u, ret, rest, hu, -⟩ := udpFlushOut_spec [] h.down.outOff_le h.down.outLen_le
    rw [if_neg hge, hu]
    exact ⟨_, rfl⟩

theorem readClient_enabled (h : TcpInv s) (hpc : s.pc = .readClient) (k : ℕ) :
    ∃ t, udpConnStep s (.recv k) = some t := by
  have hgo : s.pc ≠ .close ∧ s.pc ≠ .closed := by
    rw [hpc]
    exact ⟨by rintro ⟨⟩, by rintro ⟨⟩⟩
  obtain ⟨p, hp, -⟩ :=
    clientDataTurn_inv h.up (h.opened hgo) s.now (s.client.recv s.recvLimit k).1
  simp only [udpConnStep, handle, hpc, readClient]
  rw [if_pos (show s.session.lenGot < 2 ∨ _ from h.isReading hgo), hp]
  exact ⟨_, rfl⟩

theorem recvRemote_enabled (h : TcpInv s) (hpc : s.pc = .recvRemote) :
    (0 < s.session.outLen → ∃ t, udpConnStep s .proceed = some t) ∧
      (¬ 0 < s.session.outLen → ∃ t, udpConnStep s .recvfrom = some t) := by
  have hneg := h.up.localUdpFd_neg
  simp only [udpConnStep, handle, hpc, recvRemote]
  refine ⟨fun hout => ?_, fun hout => ?_⟩
  · rw [if_pos ⟨hneg, hout⟩]
    exact ⟨_, rfl⟩
  · obtain ⟨p, hp, -⟩ := remoteToTcp_inv h.down [s.remote.recvfrom.1] []
    rw [if_neg fun hboth => hout hboth.2, udpRemoteEvent, if_neg (Int.not_le.mpr hneg), hp]
    exact ⟨_, rfl⟩

theorem handler_enabled (h : TcpInv s) (hpc : s.pc ≠ .wait ∧ s.pc ≠ .closed) :
    ∃ e t, e.ofHandler = true ∧ udpConnStep s e = some t := by
  have hplace := h.place
  have htakes : ∀ e : UdpConnEvent, e.ofHandler = true → (∃ t, udpConnStep s e = some t) →
      ∃ e t, e.ofHandler = true ∧ udpConnStep s e = some t := by
    rintro e he ⟨t, ht⟩
    exact ⟨e, t, he, ht⟩
  cases hat : s.pc with
  | wait => exact absurd hat hpc.1
  | closed => exact absurd hat hpc.2
  | ctrl | recvLocal =>
      rw [AtPlace, hat] at hplace
      exact hplace.elim
  | flush =>
      obtain ⟨hsend, hdone⟩ := flush_enabled h hat 0
      by_cases hlt : s.session.outOff < s.session.outLen
      · exact htakes (.send 0) rfl (hsend hlt)
      · exact htakes .proceed rfl (hdone hlt)
  | readClient => exact htakes (.recv 0) rfl (readClient_enabled h hat 0)
  | route c =>
      refine htakes .proceed rfl ?_
      simp only [udpConnStep, handle, hat, route]
      exact ⟨_, rfl⟩
  | recvRemote =>
      obtain ⟨hpending, hread⟩ := recvRemote_enabled h hat
      by_cases hout : 0 < s.session.outLen
      · exact htakes .proceed rfl (hpending hout)
      · exact htakes .recvfrom rfl (hread hout)
  | updateClient =>
      by_cases hsame : s.clientEvents = s.session.clientInterest
      · refine htakes .proceed rfl ?_
        simp only [udpConnStep, handle, hat, updateClient, if_pos hsame]
        exact ⟨_, rfl⟩
      · refine htakes (.clientCtl true) rfl ?_
        simp only [udpConnStep, handle, hat, updateClient, if_neg hsame]
        exact ⟨_, rfl⟩
  | updateRemote =>
      by_cases hne : s.session.localUdpFd < 0 ∧ 0 ≤ s.remoteUdpFd ∧
          s.remoteEvents ≠ s.session.remoteInterest
      · refine htakes (.remoteCtl true) rfl ?_
        simp only [udpConnStep, handle, hat, updateRemote, if_pos hne]
        exact ⟨_, rfl⟩
      · refine htakes .proceed rfl ?_
        simp only [udpConnStep, handle, hat, updateRemote, if_neg hne]
        exact ⟨_, rfl⟩
  | close =>
      refine htakes .proceed rfl ?_
      simp only [udpConnStep, handle, hat, close]
      exact ⟨_, rfl⟩

/-! ### Reachable states -/

theorem udpStartSession_tcp (inBuf outBuf lenBytes : ℕ → UInt8) (remoteUdpFd : ℕ) (peer : SrcAddr)
    (now : Time) :
    TcpInv (udpStartSession inBuf outBuf lenBytes (-1) remoteUdpFd peer now) := by
  have hstart := udpStartTcpSession_inv inBuf outBuf lenBytes now
  exact ⟨udpStartSession_inv .., hstart.up, hstart.down, (by rintro ⟨⟩), trivial⟩

theorem TcpPart.inv (h : TcpInv s) (hpart : TcpPart s t) (ht : udpConnStep s e = some t) :
    TcpInv t :=
  ⟨udpConnStep_inv h.conn ht, hpart.up, hpart.down, hpart.closing, hpart.place⟩

theorem startHandler_tcp (h : TcpInv s) (now : Time) {role : UdpRole}
    (hrole : role ≠ .localUdp) :
    (s.startHandler now role).session = { s.session with lastActive := now } ∧
      (s.startHandler now role).client = s.client ∧ (s.startHandler now role).remote = s.remote ∧
      (s.startHandler now role).role = role ∧
      (s.startHandler now role).ev = s.reported role ∧ (s.startHandler now role).AtPlace ∧
      ((s.startHandler now role).passOver = true → (s.startHandler now role).Exhausted) := by
  have hneg : ¬ 0 ≤ s.session.localUdpFd := Int.not_le.mpr h.up.localUdpFd_neg
  cases role with
  | localUdp => exact absurd rfl hrole
  | remote => exact ⟨rfl, rfl, rfl, rfl, rfl, rfl, fun hover => absurd hover Bool.false_ne_true⟩
  | client =>
      unfold startHandler enter
      simp only [if_neg hneg]
      split
      case isTrue =>
        exact ⟨rfl, rfl, rfl, rfl, rfl, Or.inl rfl, fun hover => absurd hover Bool.false_ne_true⟩
      case isFalse =>
        unfold enterRead
        split
        case isTrue hin =>
          exact ⟨rfl, rfl, rfl, rfl, rfl, ⟨rfl, hin⟩, fun hover => absurd hover Bool.false_ne_true⟩
        case isFalse hin =>
          exact ⟨rfl, rfl, rfl, rfl, rfl, trivial, fun _ h => absurd h hin⟩

theorem startHandler_inv (h : TcpInv s) (hpc : s.pc = .wait) (now : Time) {role : UdpRole}
    (hrole : role ≠ .localUdp) : TcpInv (s.startHandler now role) := by
  have hgo : s.pc ≠ .close ∧ s.pc ≠ .closed := by
    rw [hpc]
    exact ⟨by rintro ⟨⟩, by rintro ⟨⟩⟩
  have hopen := h.opened hgo
  obtain ⟨hsession, -, -, -, -, hplace, -⟩ := startHandler_tcp h now hrole
  refine ⟨(s.startHandler_part now role).inv h.conn hgo.1 hgo.2, ?_, ?_, ?_, hplace⟩
  · rw [hsession]
    exact h.up.of_eq hopen hopen rfl
  · rw [hsession]
    exact h.down.of_eq rfl
  · rw [hsession]
    exact fun hproto => absurd hproto hopen

theorem atPlace_of_rest (h : s.pc = .wait ∨ s.pc = .closed) : s.AtPlace := by
  rcases h with h | h <;> simp only [AtPlace, h]

theorem scan_tcp (h : TcpInv s) {now : Time} {pendCount : ℕ} (ht : s.scan now pendCount = some t) :
    TcpInv t ∧ t.client = s.client ∧ t.remote = s.remote ∧
      t.session.received = s.session.received ∧ t.session.arrived = s.session.arrived := by
  have hconn := scan_inv h.conn ht
  unfold scan at ht
  split_ifs at ht with hpc
  cases ht
  have hgo : s.pc ≠ .close ∧ s.pc ≠ .closed := by
    rw [hpc]
    exact ⟨by rintro ⟨⟩, by rintro ⟨⟩⟩
  have hopen := h.opened hgo
  obtain ⟨u, heq, hup, hdown, hclose⟩ :=
    Masked.idleScan_open (h.conn.opened hgo.2) now pendCount
  have hkind : u.closeKind ≠ .proto := by
    rcases hclose with ⟨-, hkind⟩ | ⟨-, hkind⟩ <;> rw [hkind]
    · exact hopen
    · rintro ⟨⟩
  simp only [heq] at hconn ⊢
  refine ⟨⟨hconn, h.up.of_eq hopen hkind hup, h.down.of_eq hdown, fun hproto =>
    absurd hproto hkind, atPlace_of_rest ?_⟩, trivial, trivial, ?_, ?_⟩
  · dsimp only
    split
    · exact Or.inr rfl
    · exact Or.inl rfl
  · simp only [Session.upstream, Prod.mk.injEq] at hup
    exact hup.2.2.2.2.2.1
  · simp only [Session.downstream, Prod.mk.injEq] at hdown
    exact hdown.2.2.2.2

/-- A pass that is gone on with ends. The session is closed then, or its socket is exhausted. -/
theorem pass_ends (h : TcpInv s) (hover : s.passOver = true → s.Exhausted) :
    Inevitable udpConnStep (fun e => e.ofHandler = true)
      (fun t => t.pc = .closed ∨ t.pc = .wait ∧ t.Exhausted ∧ t.role = s.role ∧ t.ev = s.ev) s := by
  refine Inevitable.of_measure (I := fun u => TcpInv u ∧ (u.passOver = true → u.Exhausted) ∧
    u.role = s.role ∧ u.ev = s.ev) passWeight ?_ ?_ ⟨h, hover, rfl, rfl⟩
  · rintro u ⟨hu, hexhausted, hrole, hev⟩
    by_cases hclosed : u.pc = .closed
    · exact Or.inl (Or.inl hclosed)
    · by_cases hwait : u.pc = .wait
      · exact Or.inl (Or.inr ⟨hwait, hexhausted (by simp only [passOver, hwait]), hrole, hev⟩)
      · exact Or.inr (handler_enabled hu ⟨hwait, hclosed⟩)
  · rintro u e v ⟨hu, hexhausted, hrole, hev⟩ he hv
    have hpart := handle_tcp hu (udpConnStep_ofHandler he hv)
    exact ⟨⟨hpart.inv hu hv, hpart.passOver hexhausted, hpart.role.trans hrole, hpart.ev.trans hev⟩,
      hpart.goesOn⟩

end UdpConn

end FiveGProxy
