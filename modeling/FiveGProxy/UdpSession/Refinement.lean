import FiveGProxy.UdpSession.Streams

/-!
# The calls make up the handlers

`udpDispatch` takes everything that the kernel answers during an event at once, `udpConnStep` one
answer after the other. A session with command 0x04 that waits in `epoll_wait`, or has been closed,
is where the handlers of `maskedStep` have brought it (`rest_reached`): what a handler has still to
do, as a function of the answers to come, is the same before and behind each of its calls
(`handle_rest`).
-/

namespace FiveGProxy

open Memory Steps

/-- What the kernel answers to the calls of an event. -/
structure Answers where
  sends : List SendResult
  recvs : List RecvResult
  froms : List RecvfromResult
  clientOk : Bool
  remoteOk : Bool

/-! ### One datagram -/

theorem bufferSize_le_udpBufCap : bufferSize ≤ udpBufCap := Nat.le_add_right _ _

theorem remoteToTcp_pending {s : Session} (hout : 0 < s.outLen) (rs : List RecvfromResult)
    (ss : List SendResult) : remoteToTcp s rs ss = some (s, .ok) := by
  unfold remoteToTcp
  cases rs with
  | nil => rfl
  | cons r rs => exact if_pos hout

theorem remoteToTcp_again {s : Session} (hout : ¬ 0 < s.outLen) (rs : List RecvfromResult)
    (ss : List SendResult) : remoteToTcp s (.again :: rs) ss = some (s, .ok) := by
  unfold remoteToTcp
  exact (if_neg hout).trans (if_pos (Nat.le_add_right _ _))

theorem remoteToTcp_error {s : Session} (hout : ¬ 0 < s.outLen) (e : ℕ) (rs : List RecvfromResult)
    (ss : List SendResult) : remoteToTcp s (.error e :: rs) ss =
      some (s.closeWith .io "0x04 5G remote recvfrom 失敗" e, .close) := by
  unfold remoteToTcp
  exact (if_neg hout).trans (if_pos (Nat.le_add_right _ _))

theorem remoteToTcp_empty {s : Session} (hout : ¬ 0 < s.outLen) {d : Datagram}
    (hempty : d.payload.take (bufferSize - (2 + 22)) = []) (rs : List RecvfromResult)
    (ss : List SendResult) : remoteToTcp s (.data d :: rs) ss = remoteToTcp s rs ss := by
  rw [remoteToTcp, if_neg hout, if_pos bufferSize_le_udpBufCap]
  exact if_pos hempty

/-- A non-empty datagram is framed, and the frame flushed as far as the client takes it. -/
theorem remoteToTcp_frame {s : Session} (hout : ¬ 0 < s.outLen) {d : Datagram}
    (hempty : d.payload.take (bufferSize - (2 + 22)) ≠ []) :
    ∃ u, u.outOff < u.outLen ∧ u.outLen ≤ udpBufCap ∧
      ∀ rs ss, remoteToTcp s (.data d :: rs) ss = (udpFlushOut u ss).bind fun p =>
        if p.2.1 = Ret.close then some (p.1, .close) else remoteToTcp p.1 rs p.2.2 := by
  have hd : Datagram.Received ⟨d.src, d.payload.take (bufferSize - (2 + 22))⟩ :=
    ⟨hempty, List.length_take_le _ _⟩
  obtain ⟨u, hu, -, -, hle, -⟩ := frameDatagram_spec s hd
  refine ⟨u, ?_, hle, fun rs ss => ?_⟩
  · unfold frameDatagram at hu
    simp only at hu
    split_ifs at hu <;> cases hu <;> exact Nat.succ_pos _
  · rw [remoteToTcp, if_neg hout, if_pos bufferSize_le_udpBufCap]
    simp only [if_neg hempty, hu, Option.bind_some]
    cases hflush : udpFlushOut u ss with
    | none => rfl
    | some p =>
        obtain ⟨v, ret, left⟩ := p
        cases ret <;> rfl

namespace UdpConn

/-- What the handler does behind `udp_flush_out`. -/
def restAfterFlush (s : UdpConn) (a : Answers) :
    Session × Ret × List SendResult → Option (Session × Ret)
  | (u, .close, _) => some (u, .close)
  | (u, .ok, sends) =>
      match s.role with
      | .client => if s.ev.epollin then clientDataLoop s.now u a.recvs else some (u, .ok)
      | .localUdp | .remote => remoteToTcp u a.froms sends

/-- What the handler has still to do. -/
def rest (s : UdpConn) (a : Answers) : Option (Session × Ret) :=
  match s.pc with
  | .flush => (udpFlushOut s.session a.sends).bind (s.restAfterFlush a)
  | .readClient | .route _ => clientDataLoop s.now s.session a.recvs
  | .recvRemote => remoteToTcp s.session a.froms a.sends
  | .close => some (s.session, .close)
  | _ => some (s.session, .ok)

/-- The session when its handler has returned, with the masks `udp_update_events` gives it. -/
def returnedMasked (s : UdpConn) (a : Answers) (p : Session × Ret) : Masked :=
  { s.toMasked with
    session := if p.2 = Ret.close then { p.1 with closed := true } else p.1 }.udpUpdateEvents
      a.clientOk a.remoteOk

/-- What the event has still to do. -/
def restMasked (s : UdpConn) (a : Answers) : Option Masked :=
  match s.pc with
  | .wait | .closed => some s.toMasked
  | .updateRemote =>
      some (if s.session.localUdpFd < 0 ∧ 0 ≤ s.remoteUdpFd then s.toMasked.armRemote a.remoteOk
        else s.toMasked)
  | _ => (s.rest a).map (s.returnedMasked a)

/-- The call that leads from `s` to `t` has one answer, or none. -/
def RestKept (s t : UdpConn) : Prop :=
  ∃ f : Answers → Answers, ∀ a, t.restMasked a = s.restMasked (f a)

variable {s t : UdpConn} {e : UdpConnEvent}

/-! ### One call -/

/-- Within a handler only the session changes. -/
structure InHandler (s t : UdpConn) : Prop where
  remoteUdpFd : t.remoteUdpFd = s.remoteUdpFd
  clientEvents : t.clientEvents = s.clientEvents
  remoteEvents : t.remoteEvents = s.remoteEvents

/-- The places where the handler itself has something to do. -/
def Handling (s : UdpConn) : Prop :=
  s.pc ≠ .wait ∧ s.pc ≠ .closed ∧ s.pc ≠ .updateRemote

theorem restMasked_handling (h : s.Handling) (a : Answers) :
    s.restMasked a = (s.rest a).map (s.returnedMasked a) := by
  obtain ⟨hwait, hclosed, hremote⟩ := h
  unfold restMasked
  cases hpc : s.pc with
  | wait => exact absurd hpc hwait
  | closed => exact absurd hpc hclosed
  | updateRemote => exact absurd hpc hremote
  | _ => rfl

theorem restKept_of_rest (hs : s.Handling) (ht : t.Handling) (hsame : InHandler s t)
    (f : Answers → Answers) (hok : ∀ a, (f a).clientOk = a.clientOk ∧ (f a).remoteOk = a.remoteOk)
    (hrest : ∀ a, t.rest a = s.rest (f a)) : RestKept s t := by
  refine ⟨f, fun a => ?_⟩
  have hreturned : t.returnedMasked a = s.returnedMasked (f a) := by
    funext p
    obtain ⟨hfd, hclient, hremote⟩ := hsame
    simp only [returnedMasked, hfd, hclient, hremote, (hok a).1, (hok a).2]
  rw [restMasked_handling hs, restMasked_handling ht, hrest, hreturned]

theorem udpSend5g_masked (s : UdpConn) (payload : List UInt8) (r : SendResult) :
    (s.udpSend5g payload r).toMasked = s.toMasked ∧ (s.udpSend5g payload r).now = s.now := by
  unfold udpSend5g
  split
  · exact ⟨rfl, rfl⟩
  · simp only
    split <;> exact ⟨rfl, rfl⟩

theorem rest_returned (s : UdpConn) (ret : Ret) (a : Answers) :
    (s.returned ret).rest a = some (s.session, ret) := by
  cases ret <;> rfl

theorem returned_handling (s : UdpConn) (ret : Ret) : (s.returned ret).Handling := by
  cases ret <;> exact ⟨by rintro ⟨⟩, by rintro ⟨⟩, by rintro ⟨⟩⟩

theorem rest_afterFlush (s : UdpConn) (a : Answers) :
    s.afterFlush.Handling ∧ InHandler s s.afterFlush ∧
      s.afterFlush.rest a = s.restAfterFlush a (s.session, .ok, a.sends) := by
  unfold afterFlush restAfterFlush
  cases s.role with
  | client =>
      simp only [enterRead]
      split
      · exact ⟨⟨by rintro ⟨⟩, by rintro ⟨⟩, by rintro ⟨⟩⟩, ⟨rfl, rfl, rfl⟩, rfl⟩
      · exact ⟨s.returned_handling .ok, ⟨rfl, rfl, rfl⟩, rfl⟩
  | localUdp | remote =>
      exact ⟨⟨by rintro ⟨⟩, by rintro ⟨⟩, by rintro ⟨⟩⟩, ⟨rfl, rfl, rfl⟩, rfl⟩

theorem restAfterFlush_remote (hrole : s.role = .remote) {a : Answers}
    (p : Session × Ret × List SendResult) : s.restAfterFlush a p =
      if p.2.1 = Ret.close then some (p.1, .close) else remoteToTcp p.1 a.froms p.2.2 := by
  obtain ⟨u, ret, left⟩ := p
  cases ret with
  | close => rfl
  | ok =>
      simp only [restAfterFlush, hrole]
      rfl

/-- The frame has been flushed as far as possible. -/
theorem afterFlush_kept {u : UdpConn} (hs : s.Handling) (hsame : InHandler s u)
    (f : Answers → Answers) (hok : ∀ a, (f a).clientOk = a.clientOk ∧ (f a).remoteOk = a.remoteOk)
    (hrest : ∀ a, s.rest (f a) = u.restAfterFlush a (u.session, .ok, a.sends)) :
    RestKept s u.afterFlush := by
  have hafter := u.rest_afterFlush
  have hmasks : InHandler s u.afterFlush := by
    obtain ⟨hfd, hclient, hremote⟩ := (hafter ⟨[], [], [], true, true⟩).2.1
    exact ⟨hfd.trans hsame.remoteUdpFd, hclient.trans hsame.clientEvents,
      hremote.trans hsame.remoteEvents⟩
  refine restKept_of_rest hs (hafter ⟨[], [], [], true, true⟩).1 hmasks f hok fun a => ?_
  rw [hrest, (hafter a).2.2]

theorem flush_kept (h : TcpInv s) (hpc : s.pc = .flush) (ht : s.flush e = some t) :
    RestKept s t := by
  have hs : s.Handling := by
    rw [Handling, hpc]
    exact ⟨by rintro ⟨⟩, by rintro ⟨⟩, by rintro ⟨⟩⟩
  have hcap := h.down.outLen_le
  have hrest : ∀ a, s.rest a = (udpFlushOut s.session a.sends).bind (s.restAfterFlush a) := by
    intro a
    simp only [rest, hpc]
  unfold flush at ht
  split at ht
  · rename_i k
    split_ifs at ht with hlt
    generalize s.client.send (s.session.outLen - s.session.outOff) k = answer at ht
    obtain ⟨⟨u, ret, left⟩, hu, rfl⟩ := Option.map_eq_some_iff.mp ht
    obtain ⟨r, sock⟩ := answer
    have hcons : ∀ a : Answers, s.rest { a with sends := r :: a.sends } =
        (udpFlushOut s.session (r :: a.sends)).bind (s.restAfterFlush a) :=
      fun a => hrest { a with sends := r :: a.sends }
    unfold udpFlushOut at hu hcons
    simp only [if_pos hlt, if_pos hcap] at hu hcons
    cases r with
    | again =>
        cases hu
        simp only [SendResult.isSent, Bool.false_and, Bool.false_eq_true, if_false]
        exact afterFlush_kept hs ⟨rfl, rfl, rfl⟩ (fun a => { a with sends := .again :: a.sends })
          (fun a => ⟨rfl, rfl⟩) hcons
    | error errno =>
        cases hu
        refine restKept_of_rest hs (returned_handling _ _) ⟨rfl, rfl, rfl⟩
          (fun a => { a with sends := .error errno :: a.sends }) (fun a => ⟨rfl, rfl⟩) fun a => ?_
        rw [hcons, rest_returned]
        rfl
    | sent k =>
        simp only at hu hcons
        unfold udpFlushOut at hu
        split_ifs at hu with hmore
        · cases hu
          have hout : 0 < s.session.outLen := Nat.zero_lt_of_lt hmore
          simp only [SendResult.isSent, Bool.true_and, decide_eq_true hout, if_true]
          refine restKept_of_rest hs ?_ ⟨rfl, rfl, rfl⟩
            (fun a => { a with sends := .sent k :: a.sends }) (fun a => ⟨rfl, rfl⟩) fun a => ?_
          · rw [Handling, hpc]
            exact ⟨by rintro ⟨⟩, by rintro ⟨⟩, by rintro ⟨⟩⟩
          · rw [hcons]
            simp only [rest, hpc]
            rfl
        · cases hu
          simp only [SendResult.isSent, lt_irrefl, decide_false, Bool.and_false,
            Bool.false_eq_true, if_false]
          refine afterFlush_kept hs ⟨rfl, rfl, rfl⟩
            (fun a => { a with sends := .sent k :: a.sends }) (fun a => ⟨rfl, rfl⟩) fun a => ?_
          rw [hcons]
          unfold udpFlushOut
          rw [if_neg hmore]
          rfl
  · split_ifs at ht with hlt
    unfold udpFlushOut at ht
    rw [if_neg hlt] at ht
    cases ht
    refine afterFlush_kept hs ⟨rfl, rfl, rfl⟩ id (fun a => ⟨rfl, rfl⟩) fun a => ?_
    rw [hrest]
    unfold udpFlushOut
    rw [id, if_neg hlt]
    rfl
  · cases ht

theorem readClient_kept (h : TcpInv s) (hpc : s.pc = .readClient) (ht : s.readClient e = some t) :
    RestKept s t := by
  have hs : s.Handling := by
    rw [Handling, hpc]
    exact ⟨by rintro ⟨⟩, by rintro ⟨⟩, by rintro ⟨⟩⟩
  have hreading : s.session.Reading := by
    refine h.isReading ⟨?_, hs.2.1⟩
    rw [hpc]
    rintro ⟨⟩
  unfold readClient at ht
  rw [if_pos (show s.session.lenGot < 2 ∨ _ from hreading)] at ht
  split at ht
  · rename_i k
    generalize s.client.recv s.recvLimit k = answer at ht
    obtain ⟨⟨u, ret⟩, hturn, rfl⟩ := Option.map_eq_some_iff.mp ht
    obtain ⟨r, sock⟩ := answer
    have hcons : ∀ a : Answers, s.rest { a with recvs := r :: a.recvs } =
        clientDataLoop s.now s.session (r :: a.recvs) := by
      intro a
      simp only [rest, hpc]
    unfold clientDataLoop at hcons
    rw [hturn] at hcons
    cases ret with
    | some ret =>
        refine restKept_of_rest hs (returned_handling _ _) ⟨?_, ?_, ?_⟩
          (fun a => { a with recvs := r :: a.recvs }) (fun a => ⟨rfl, rfl⟩) fun a => ?_
        · cases ret <;> rfl
        · cases ret <;> rfl
        · cases ret <;> rfl
        · rw [hcons, rest_returned]
    | none =>
        dsimp only
        rcases s.routeNext_cases u .readClient with hnext | ⟨c, hnext⟩ <;> rw [hnext]
        · exact restKept_of_rest hs ⟨by rintro ⟨⟩, by rintro ⟨⟩, by rintro ⟨⟩⟩ ⟨rfl, rfl, rfl⟩
            (fun a => { a with recvs := r :: a.recvs }) (fun a => ⟨rfl, rfl⟩) fun a => (hcons a).symm
        · exact restKept_of_rest hs ⟨by rintro ⟨⟩, by rintro ⟨⟩, by rintro ⟨⟩⟩ ⟨rfl, rfl, rfl⟩
            (fun a => { a with recvs := r :: a.recvs }) (fun a => ⟨rfl, rfl⟩) fun a => (hcons a).symm
  · cases ht

theorem route_kept {c : RouteCall} (h : TcpInv s) (hpc : s.pc = .route c)
    (ht : s.route c e = some t) : RestKept s t := by
  have hs : s.Handling := by
    rw [Handling, hpc]
    exact ⟨by rintro ⟨⟩, by rintro ⟨⟩, by rintro ⟨⟩⟩
  have hrole : s.role = .client := by
    have hplace := h.place
    rw [AtPlace, hpc] at hplace
    exact hplace.1
  have hgo : ∀ u : UdpConn, u.toMasked = s.toMasked → u.role = s.role → u.now = s.now →
      RestKept s u.afterRoute := by
    intro u hmasked hsame hnow
    have heq : u.afterRoute = { u with pc := .readClient } := by
      rw [afterRoute, hsame, hrole]
    rw [heq]
    refine restKept_of_rest hs ⟨by rintro ⟨⟩, by rintro ⟨⟩, by rintro ⟨⟩⟩ ⟨?_, ?_, ?_⟩ id
      (fun a => ⟨rfl, rfl⟩) fun a => ?_
    · simp only [hmasked]
    · simp only [hmasked]
    · simp only [hmasked]
    · simp only [rest, hpc, hmasked, hnow, id]
  unfold route at ht
  split at ht
  · rename_i r
    cases ht
    obtain ⟨-, -, hsame, -⟩ := s.udpSend5g_same c.payload r
    obtain ⟨hmasked, hnow⟩ := s.udpSend5g_masked c.payload r
    exact hgo _ hmasked hsame hnow
  · cases ht
    exact hgo s rfl rfl rfl
  · cases ht

theorem recvRemote_kept (h : TcpInv s) (hpc : s.pc = .recvRemote) (ht : s.recvRemote e = some t) :
    RestKept s t := by
  have hs : s.Handling := by
    rw [Handling, hpc]
    exact ⟨by rintro ⟨⟩, by rintro ⟨⟩, by rintro ⟨⟩⟩
  have hrole : s.role = .remote := by
    have hplace := h.place
    rwa [AtPlace, hpc] at hplace
  have hneg := h.up.localUdpFd_neg
  have hrest : ∀ a, s.rest a = remoteToTcp s.session a.froms a.sends := by
    intro a
    simp only [rest, hpc]
  unfold recvRemote at ht
  by_cases hout : 0 < s.session.outLen
  · rw [if_pos ⟨hneg, hout⟩] at ht
    split at ht
    · cases ht
      refine restKept_of_rest hs (returned_handling _ _) ⟨rfl, rfl, rfl⟩ id (fun a => ⟨rfl, rfl⟩)
        fun a => ?_
      rw [rest_returned, hrest, id, remoteToTcp_pending hout]
    · cases ht
  · rw [if_neg fun hboth => hout hboth.2] at ht
    split at ht
    · obtain ⟨p, hp, rfl⟩ := Option.map_eq_some_iff.mp ht
      rw [udpRemoteEvent, if_neg (Int.not_le.mpr hneg)] at hp
      generalize s.remote.recvfrom = answer at hp ⊢
      obtain ⟨r, sock⟩ := answer
      have hcons : ∀ a : Answers, s.rest { a with froms := r :: a.froms } =
          remoteToTcp s.session (r :: a.froms) a.sends :=
        fun a => hrest { a with froms := r :: a.froms }
      cases r with
      | again =>
          rw [remoteToTcp_again hout] at hp
          cases hp
          refine restKept_of_rest hs (returned_handling _ _) ⟨rfl, rfl, rfl⟩
            (fun a => { a with froms := .again :: a.froms }) (fun a => ⟨rfl, rfl⟩) fun a => ?_
          rw [hcons, remoteToTcp_again hout]
          rfl
      | error errno =>
          rw [remoteToTcp_error hout] at hp
          cases hp
          refine restKept_of_rest hs (returned_handling _ _) ⟨rfl, rfl, rfl⟩
            (fun a => { a with froms := .error errno :: a.froms }) (fun a => ⟨rfl, rfl⟩) fun a => ?_
          rw [hcons, remoteToTcp_error hout]
          rfl
      | data d =>
          simp only [RecvfromResult.isData, if_true]
          by_cases hempty : d.payload.take (bufferSize - (2 + 22)) = []
          · rw [remoteToTcp_empty hout hempty] at hp
            cases hp
            simp only [hout, and_false, if_false]
            refine restKept_of_rest hs ?_ ⟨rfl, rfl, rfl⟩
              (fun a => { a with froms := .data d :: a.froms }) (fun a => ⟨rfl, rfl⟩) fun a => ?_
            · rw [Handling, hpc]
              exact ⟨by rintro ⟨⟩, by rintro ⟨⟩, by rintro ⟨⟩⟩
            · rw [hcons, remoteToTcp_empty hout hempty]
              simp only [rest, hpc]
          · obtain ⟨u, hlt, hle, hturn⟩ := remoteToTcp_frame hout hempty
            have hflush : udpFlushOut u [] = some (u, .ok, []) := by
              unfold udpFlushOut
              rw [if_pos hlt, if_pos hle]
            rw [hturn, hflush] at hp
            cases hp
            have hpending : s.session.localUdpFd < 0 ∧ 0 < u.outLen :=
              ⟨hneg, Nat.zero_lt_of_lt hlt⟩
            simp only [if_pos hpending]
            refine restKept_of_rest hs ⟨by rintro ⟨⟩, by rintro ⟨⟩, by rintro ⟨⟩⟩ ⟨rfl, rfl, rfl⟩
              (fun a => { a with froms := .data d :: a.froms }) (fun a => ⟨rfl, rfl⟩) fun a => ?_
            rw [hcons, hturn]
            refine congrArg (udpFlushOut u a.sends).bind (funext fun p => ?_)
            exact restAfterFlush_remote hrole p
    · cases ht

/-! ### The end of an event -/

theorem restMasked_updateClient (hpc : s.pc = .updateClient) (hopen : s.session.closed = false)
    (a : Answers) : s.restMasked a =
      some (if s.session.localUdpFd < 0 ∧ 0 ≤ s.remoteUdpFd then
          (s.toMasked.armClient a.clientOk).armRemote a.remoteOk
        else s.toMasked.armClient a.clientOk) := by
  have hupdate : s.restMasked a = some (s.toMasked.udpUpdateEvents a.clientOk a.remoteOk) := by
    simp only [restMasked, rest, hpc]
    rfl
  rw [hupdate, Masked.udpUpdateEvents, hopen, if_neg Bool.false_ne_true]
  simp only [Masked.armClient_session, Masked.armClient_remoteUdpFd]

theorem updates_kept (h : TcpInv s) (hu : Updates s t) : RestKept s t := by
  cases hu with
  | clientSame hpc hsame =>
      have hopen := h.conn.opened (by rw [hpc]; rintro ⟨⟩)
      refine ⟨id, fun a => ?_⟩
      have hclient : s.toMasked.armClient a.clientOk = s.toMasked :=
        if_neg fun hne => hne.1 hsame
      rw [id, restMasked_updateClient hpc hopen, hclient]
      rfl
  | client hpc hne ok =>
      have hopen := h.conn.opened (by rw [hpc]; rintro ⟨⟩)
      refine ⟨fun a => { a with clientOk := ok }, fun a => ?_⟩
      rw [restMasked_updateClient hpc hopen]
      simp only [restMasked, Masked.armClient_session, Masked.armClient_remoteUdpFd]
  | remoteSame hpc hsame =>
      refine ⟨id, fun a => ?_⟩
      simp only [restMasked, hpc, id]
      split
      case isTrue hneg =>
        have hremote : s.toMasked.armRemote a.remoteOk = s.toMasked :=
          if_neg fun hne => hsame ⟨hneg.1, hneg.2, hne.1⟩
        rw [hremote]
      case isFalse => rfl
  | remote hpc hneg hne ok =>
      refine ⟨fun a => { a with remoteOk := ok }, fun a => ?_⟩
      simp only [restMasked, hpc, if_pos (And.intro hneg h.conn.remoteUdpFd_nonneg)]

/-- What the event has still to do is the same before and behind each call. -/
theorem handle_kept (h : TcpInv s) (ht : s.handle e = some t) : RestKept s t := by
  have hplace := h.place
  unfold handle at ht
  split at ht
  case h_1 => cases ht
  case h_2 hpc =>
    rw [AtPlace, hpc] at hplace
    exact hplace.elim
  case h_3 hpc => exact flush_kept h hpc ht
  case h_4 hpc => exact readClient_kept h hpc ht
  case h_5 hpc => exact route_kept h hpc ht
  case h_6 hpc =>
    rw [AtPlace, hpc] at hplace
    exact hplace.elim
  case h_7 hpc => exact recvRemote_kept h hpc ht
  case h_8 hpc => exact updates_kept h (updateClient_updates hpc ht)
  case h_9 hpc => exact updates_kept h (updateRemote_updates hpc ht)
  case h_10 hpc =>
    cases e <;> cases ht
    refine ⟨id, fun a => ?_⟩
    simp only [restMasked, rest, hpc, Option.map_some, returnedMasked, if_true, id]
    rfl
  case h_11 => cases ht

theorem maskedStep_event {m : Masked} (hopen : m.session.closed = false) (e : SessionEvent)
    (clientOk remoteOk : Bool) : maskedStep m (.event e clientOk remoteOk) =
      (udpDispatch m.session e).map fun p =>
        { m with session := if p.2 = Ret.close then { p.1 with closed := true } else p.1 }.udpUpdateEvents
          clientOk remoteOk := by
  unfold maskedStep udpTcpSessionStep
  simp only [hopen, Bool.false_eq_true, if_false, Option.map_map]
  rfl

/-- The reading loop starts where it has stopped, so there is no frame to be finished first. -/
theorem restAfterFlush_client {u : UdpConn} (hrole : u.role = .client) {v : Session}
    (hreading : v.Reading) (a : Answers) (left : List SendResult) :
    u.restAfterFlush a (v, .ok, left) =
      if u.ev.epollin then
        clientDataLoop u.now (if v.lenGot < 2 then v else finishFrame u.now v) a.recvs
      else some (v, .ok) := by
  have hself : (if v.lenGot < 2 then v else finishFrame u.now v) = v := by
    split
    case isTrue => rfl
    case isFalse hge => exact if_pos (hreading.resolve_left hge)
  rw [hself]
  simp only [restAfterFlush, hrole]

theorem enter_client {u : UdpConn} (hrole : u.role = .client) (hneg : u.session.localUdpFd < 0)
    (hreading : u.session.Reading) : u.enter.Handling ∧ InHandler u u.enter ∧
      ∀ a, u.enter.rest a = udpClientDataEvent u.now u.ev a.sends a.recvs u.session := by
  have henter : u.enter = if 0 < u.session.outLen then { u with pc := .flush } else u.afterFlush := by
    simp only [enter, afterFlush, hrole, if_neg (Int.not_le.mpr hneg)]
  unfold udpClientDataEvent
  rw [henter]
  by_cases hout : 0 < u.session.outLen
  · simp only [if_pos hout]
    refine ⟨⟨by rintro ⟨⟩, by rintro ⟨⟩, by rintro ⟨⟩⟩, ⟨rfl, rfl, rfl⟩, fun a => ?_⟩
    simp only [rest]
    cases hflush : udpFlushOut u.session a.sends with
    | none => rfl
    | some p =>
        obtain ⟨v, ret, left⟩ := p
        cases ret with
        | close => rfl
        | ok =>
            have hv := hreading.of_counters (udpFlushOut_fixed hflush).2
            exact restAfterFlush_client (u := { u with pc := .flush }) hrole hv a left
  · simp only [if_neg hout]
    have hafter := u.rest_afterFlush
    refine ⟨(hafter ⟨[], [], [], true, true⟩).1, (hafter ⟨[], [], [], true, true⟩).2.1, fun a => ?_⟩
    rw [(hafter a).2.2, restAfterFlush_client hrole hreading]
    rfl

/-- What the handler of a new event has to do is what the event does to the session. -/
theorem startHandler_rest (h : TcpInv s) (hpc : s.pc = .wait) (now : Time) {role : UdpRole}
    (hrole : role ≠ .localUdp) :
    ∃ f : Answers → MaskedEvent,
      ∀ a, maskedStep s.toMasked (f a) = (s.startHandler now role).restMasked a := by
  have hopen := h.conn.opened (by rw [hpc]; rintro ⟨⟩)
  have hneg := h.up.localUdpFd_neg
  have hreading : s.session.Reading := by
    refine h.isReading ⟨?_, ?_⟩ <;>
    · rw [hpc]
      rintro ⟨⟩
  have hgo : ∀ e : Answers → SessionEvent, (s.startHandler now role).Handling →
      InHandler s (s.startHandler now role) →
      (∀ a, (s.startHandler now role).rest a = udpDispatch s.session (e a)) →
      ∃ f : Answers → MaskedEvent,
        ∀ a, maskedStep s.toMasked (f a) = (s.startHandler now role).restMasked a := by
    rintro e hhandling ⟨hfd, hclient, hremote⟩ hrest
    refine ⟨fun a => .event (e a) a.clientOk a.remoteOk, fun a => ?_⟩
    rw [maskedStep_event hopen, restMasked_handling hhandling, hrest]
    unfold returnedMasked
    simp only [hfd, hclient, hremote]
  cases role with
  | localUdp => exact absurd rfl hrole
  | client =>
      obtain ⟨hhandling, hsame, hrest⟩ := enter_client (u := { s with
        session := { s.session with lastActive := now }
        role := .client
        now := now
        ev := s.reported .client
        clientCtlOk := true
        remoteCtlOk := true }) rfl hneg hreading
      exact hgo (fun a => .client now (s.reported .client) a.sends a.recvs) hhandling
        ⟨hsame.remoteUdpFd, hsame.clientEvents, hsame.remoteEvents⟩ hrest
  | remote =>
      refine hgo (fun a => .remote now a.froms a.sends)
        ⟨by rintro ⟨⟩, by rintro ⟨⟩, by rintro ⟨⟩⟩ ⟨rfl, rfl, rfl⟩ fun a => ?_
      have hremote : ¬ 0 ≤ { s.session with lastActive := now }.localUdpFd := Int.not_le.mpr hneg
      rw [udpDispatch, udpRemoteEvent, if_neg hremote]
      rfl

/-! ### Runs -/

theorem network_rest {n : UdpNetwork} (ht : s.network n = some t) :
    t.toMasked = s.toMasked ∧ t.pc = s.pc ∧ ∀ a, t.restMasked a = s.restMasked a := by
  unfold network at ht
  split at ht
  · split_ifs at ht
    cases ht
    exact ⟨rfl, rfl, fun _ => rfl⟩
  all_goals
    cases ht
    exact ⟨rfl, rfl, fun _ => rfl⟩

/-- A masked session that comes from `m₀` and is in step with `s`. -/
inductive Comes (m₀ : Masked) (s : UdpConn) : Prop
  | resting (hpc : s.pc = .wait ∨ s.pc = .closed) (h : Reaches maskedStep m₀ s.toMasked)
  | handling (m : Masked) (f : Answers → MaskedEvent) (h : Reaches maskedStep m₀ m)
      (hrest : ∀ a, maskedStep m (f a) = s.restMasked a)

theorem Comes.reaches {m₀ : Masked} (h : Comes m₀ s) (hpc : s.pc = .wait ∨ s.pc = .closed) :
    Reaches maskedStep m₀ s.toMasked := by
  cases h with
  | resting _ h => exact h
  | handling m f h hrest =>
      refine h.trans (Reaches.single (a := f ⟨[], [], [], true, true⟩) ?_)
      rw [hrest]
      rcases hpc with hpc | hpc <;> simp only [restMasked, hpc]

theorem Comes.step {m₀ : Masked} (h : TcpInv s) (hcomes : Comes m₀ s)
    (ht : udpConnStep s e = some t) : Comes m₀ t := by
  cases e with
  | wakeup now role =>
      replace ht : s.wakeup now role = some t := ht
      unfold wakeup at ht
      split_ifs at ht with hgo
      cases ht
      have hrole : role ≠ .localUdp := by
        rintro rfl
        exact absurd (hgo.2.2 rfl) (Int.not_le.mpr h.up.localUdpFd_neg)
      obtain ⟨f, hf⟩ := startHandler_rest h hgo.1 now hrole
      exact .handling s.toMasked f (hcomes.reaches (.inl hgo.1)) hf
  | scan now pendCount =>
      replace ht : s.scan now pendCount = some t := ht
      unfold scan at ht
      split_ifs at ht with hpc
      cases ht
      refine .resting ?_ ((hcomes.reaches (.inl hpc)).trans
        (Reaches.single (a := .scan now pendCount) rfl))
      dsimp only
      split
      · exact .inr rfl
      · exact .inl rfl
  | replay payload r =>
      replace ht : s.replay payload r = some t := ht
      unfold replay at ht
      split_ifs at ht with hpc
      cases ht
      refine .resting (.inl ((s.udpSend5g_pc payload r).trans hpc)) ?_
      rw [(s.udpSend5g_masked payload r).1]
      exact hcomes.reaches (.inl hpc)
  | network n =>
      obtain ⟨hmasked, hpc, hrest⟩ := network_rest ht
      cases hcomes with
      | resting hat hreach => exact .resting (hpc ▸ hat) (hmasked ▸ hreach)
      | handling m f hreach hkept => exact .handling m f hreach fun a => (hkept a).trans (hrest a).symm
  | _ =>
      obtain ⟨f', hf'⟩ := handle_kept h ht
      cases hcomes with
      | resting hat hreach =>
          rcases hat with hat | hat <;>
          · replace ht : s.handle _ = some t := ht
            rw [handle, hat] at ht
            cases ht
      | handling m f hreach hkept =>
          exact .handling m (fun a => f (f' a)) hreach fun a => (hkept (f' a)).trans (hf' a).symm

/-- A session with command 0x04 that is not in a handler is where the handlers have brought it, each
with all the answers of its event at once. -/
theorem rest_reached {inBuf outBuf lenBytes : ℕ → UInt8} {remoteUdpFd : ℕ} {peer : SrcAddr}
    {now : Time} {es : List UdpConnEvent}
    (hrun : run udpConnStep (udpStartSession inBuf outBuf lenBytes (-1) remoteUdpFd peer now) es =
      some t) (hpc : t.pc = .wait ∨ t.pc = .closed) :
    Reaches maskedStep (udpStartMasked inBuf outBuf lenBytes remoteUdpFd now) t.toMasked := by
  have hstart : Comes (udpStartMasked inBuf outBuf lenBytes remoteUdpFd now)
      (udpStartSession inBuf outBuf lenBytes (-1) remoteUdpFd peer now) :=
    .resting (.inl rfl) (.refl _)
  have hcomes := run_invariant (P := fun u => (∃ stream datagrams, Accounts stream datagrams u) ∧
    Comes (udpStartMasked inBuf outBuf lenBytes remoteUdpFd now) u) ?_ ⟨?_, hstart⟩ hrun
  · exact hcomes.2.reaches hpc
  · rintro u e v ⟨⟨stream, datagrams, haccounts⟩, hu⟩ hv
    exact ⟨⟨_, _, haccounts.step hv⟩, hu.step haccounts.inv hv⟩
  · exact ⟨[], [], udpStartSession_tcp inBuf outBuf lenBytes remoteUdpFd peer now, rfl, [], rfl, rfl⟩

theorem rest_reached_violation :
    ∃ s, run udpConnStep (freshSession (-1)) violationRun = some s ∧
      (s.pc = .closed ∧ s.session.routed = [⟨1, [8, 8, 8, 8], (0, 53), [0x61]⟩]) ∧
      Reaches maskedStep (udpStartMasked (fun _ => 0) (fun _ => 0) (fun _ => 0) 6 7) s.toMasked := by
  obtain ⟨s, hrun, hend⟩ := exists_run_of_any (by decide +kernel :
    (run udpConnStep (freshSession (-1)) violationRun).any (fun s => decide
      (s.pc = .closed ∧ s.session.routed = [⟨1, [8, 8, 8, 8], (0, 53), [0x61]⟩])) = true)
  exact ⟨s, hrun, hend, rest_reached hrun (.inr hend.1)⟩

end UdpConn

/-! ### A session with command 0x03 among the others -/

namespace LocalRelay

/-- `t` is session `u` by itself. -/
structure Shows (s : LocalRelay) (u : ℕ) (t : Session) : Prop where
  inBuf : s.inBuf u = t.inBuf
  clientSrc : s.clientSrc u = t.clientSrc
  localSent : (s.relayed.filter fun r => r.1 = u).map (fun r => r.2.2) = t.localSent

variable {s : LocalRelay} {u : ℕ} {t : Session}

/-- A datagram on the relay socket does to the session what it does to a session by itself, and the
worker is sent to route the same frame. -/
theorem udpLocalEvent_shows (h : s.Shows u t) (peer : SrcAddr) (w : Fin udpWorkerCount)
    {src : SrcAddr} {body : List UInt8} (hlen : body.length ≤ bufferSize) :
    (s.udpLocalEvent peer w u src body).Shows u (udpLocalTurn peer t ⟨src, body⟩) ∧
      ∃ call : Option RouteCall,
        (udpLocalTurn peer t ⟨src, body⟩).routed = t.routed ++ call.toList ∧
        (s.udpLocalEvent peer w u src body).dns =
          (call.map fun c => s.dns.setPc w (.route u c)).getD s.dns := by
  have hbuf := h.inBuf
  have hstored : (s.setInBuf u (write (s.inBuf u) 0 body)).Shows u
      { t with inBuf := write t.inBuf 0 body } :=
    ⟨by rw [hbuf]; exact Function.update_self .., h.clientSrc, h.localSent⟩
  have hnone : t.routed = t.routed ++ (none : Option RouteCall).toList := (List.append_nil _).symm
  unfold udpLocalEvent udpLocalTurn
  simp only [List.take_of_length_le hlen]
  split
  case isTrue => exact ⟨hstored, none, hnone, rfl⟩
  case isFalse =>
    rw [hbuf] at hstored ⊢
    cases socks5UdpParse (write t.inBuf 0 body) body.length with
    | none => exact ⟨hstored, none, hnone, rfl⟩
    | some hdr =>
        simp only
        split
        case isTrue =>
          refine ⟨⟨hstored.inBuf, Function.update_self .., hstored.localSent⟩,
            udpFrameCall (write t.inBuf 0 body) body.length, rfl, ?_⟩
          cases udpFrameCall (write t.inBuf 0 body) body.length <;> rfl
        case isFalse => exact ⟨hstored, none, hnone, rfl⟩

/-- A datagram from 5G is relayed as in a session by itself. -/
theorem udpRemoteEvent_shows (h : s.Shows u t) (d : Datagram) :
    ∃ t', remoteToLocal t [.data d] = some (t', .ok) ∧ (s.udpRemoteEvent u d).Shows u t' := by
  have hstored : ∀ buf, (s.setInBuf u buf).Shows u { t with inBuf := buf } :=
    fun buf => ⟨Function.update_self .., h.clientSrc, h.localSent⟩
  unfold remoteToLocal udpRemoteEvent
  rw [if_pos bufferSize_le_udpBufCap]
  simp only
  split
  case isTrue => exact ⟨t, rfl, h⟩
  case isFalse =>
    rw [h.inBuf, h.clientSrc]
    cases hsrc : t.clientSrc with
    | none => exact ⟨_, rfl, (hstored _).inBuf, h.clientSrc.trans hsrc, h.localSent⟩
    | some dst =>
        refine ⟨_, rfl, (hstored _).inBuf, h.clientSrc.trans hsrc, ?_⟩
        simp only [List.filter_append, List.map_append, h.localSent]
        simp

end LocalRelay

end FiveGProxy
