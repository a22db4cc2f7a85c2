import FiveGProxy.UdpDns.Isolation
import FiveGProxy.UdpSession.Framing

/-!
# Interest masks of a session

A session with command 0x04 is woken for its client socket and for its 5G socket. The two handlers
share one outgoing frame: either of them may empty it, and the 5G handler fills it. After every
event `udp_update_events` computes both masks from `out_len` alone. While a frame is pending the 5G
socket is masked, so the only way back to its datagrams is the EPOLLOUT of the client
(`Masked.Rearms`).
-/

namespace FiveGProxy

open Steps

/-- The interest mask `udp_update_events` computes for the client. -/
def Session.clientInterest (s : Session) : EpollEvents :=
  let ev : EpollEvents := ⟨decide (s.localUdpFd < 0), false, true, false, false⟩
  if s.localUdpFd < 0 ∧ 0 < s.outLen then { ev with epollout := true } else ev

/-- The interest mask `udp_update_events` computes for the 5G socket. -/
def Session.remoteInterest (s : Session) : EpollEvents :=
  ⟨if 0 < s.outLen then false else true, false, false, false, false⟩

theorem Session.clientInterest_epollout (s : Session) :
    s.clientInterest.epollout = true ↔ s.localUdpFd < 0 ∧ 0 < s.outLen := by
  unfold Session.clientInterest
  simp only
  split_ifs with hout
  · exact iff_of_true rfl hout
  · exact iff_of_false nofun hout

/-- A session with the fields `remote_udp_fd`, `client_events` and `remote_events`. -/
structure Masked where
  session : Session
  remoteUdpFd : ℤ
  clientEvents : EpollEvents
  remoteEvents : EpollEvents

namespace Masked

/-- The mask of the client is changed when it differs and `epoll_ctl` succeeds. -/
def armClient (ok : Bool) (m : Masked) : Masked :=
  if m.clientEvents ≠ m.session.clientInterest ∧ ok = true then
    { m with clientEvents := m.session.clientInterest }
  else m

def armRemote (ok : Bool) (m : Masked) : Masked :=
  if m.remoteEvents ≠ m.session.remoteInterest ∧ ok = true then
    { m with remoteEvents := m.session.remoteInterest }
  else m

/-- `clientOk` and `remoteOk` are the results of the two `epoll_ctl` calls, where they are made. -/
def udpUpdateEvents (clientOk remoteOk : Bool) (m : Masked) : Masked :=
  if m.session.closed then m
  else
    let m := m.armClient clientOk
    if m.session.localUdpFd < 0 ∧ 0 ≤ m.remoteUdpFd then m.armRemote remoteOk else m

/-- What the five-second scan does to the session. `pendCount` is the number of frames that wait for
the resolution of a name. -/
def idleScan (now : Time) (pendCount : ℕ) (m : Masked) : Masked :=
  if m.session.closed then m
  else
    let s := if 0 < m.session.outLen then { m.session with lastActive := now } else m.session
    if pendCount = 0 ∧ udpConnIdleExpired now s.lastActive udpIdleTimeoutSec = true then
      { m with session :=
          { s.closeWith .idle "閒置逾時（超過 UDP_IDLE_TIMEOUT_SEC 無活動）" 0 with closed := true } }
    else { m with session := s }

end Masked

/-- A session with command 0x04 as `udp_start_session` registers it. -/
def udpStartMasked (inBuf outBuf lenBytes : ℕ → UInt8) (remoteUdpFd : ℕ) (now : Time) : Masked where
  session := udpStartTcpSession inBuf outBuf lenBytes now
  remoteUdpFd := remoteUdpFd
  clientEvents := ⟨true, false, true, false, false⟩
  remoteEvents := ⟨true, false, false, false, false⟩

inductive MaskedEvent where
  | event (e : SessionEvent) (clientOk remoteOk : Bool)
  | scan (now : Time) (pendCount : ℕ)

/-- The `epoll_ctl` calls of the step succeed. -/
def MaskedEvent.CtlOk : MaskedEvent → Prop
  | .event _ clientOk remoteOk => clientOk = true ∧ remoteOk = true
  | .scan _ _ => True

/-- The masks are recomputed after the handler; `udp_update_events` leaves those of a session that
has been closed alone. -/
def maskedStep : Step Masked MaskedEvent := fun m e =>
  match e with
  | .event e clientOk remoteOk =>
      (udpTcpSessionStep m.session e).map fun s =>
        { m with session := s }.udpUpdateEvents clientOk remoteOk
  | .scan now pendCount => some (m.idleScan now pendCount)

/-! ### The outgoing frame -/

def Session.Unsent (s : Session) : Prop := 0 < s.outLen → s.outOff < s.outLen

theorem Session.Unsent.of_downstream {s t : Session} (h : s.Unsent)
    (heq : t.downstream = s.downstream) : t.Unsent := by
  simp only [Session.downstream, Prod.mk.injEq] at heq
  obtain ⟨-, hlen, hoff, -⟩ := heq
  rw [Session.Unsent, hlen, hoff]
  exact h

/-- What flushing leaves behind: the frame is gone or a part of it is still to be sent. -/
theorem udpFlushOut_unsent {s t : Session} {rs rest : List SendResult} {ret : Ret}
    (h : udpFlushOut s rs = some (t, ret, rest)) : t.Unsent := by
  induction rs generalizing s with
  | nil =>
      unfold udpFlushOut at h
      split_ifs at h with hlt <;> cases h
      · exact fun _ => hlt
      · exact fun hpos => absurd hpos (lt_irrefl 0)
  | cons r rs ih =>
      unfold udpFlushOut at h
      split_ifs at h with hlt
      · cases r with
        | again =>
            cases h
            exact fun _ => hlt
        | error e =>
            cases h
            exact fun _ => hlt
        | sent k => exact ih h
      · cases h
        exact fun hpos => absurd hpos (lt_irrefl 0)

theorem udpFlushOut_sent_le {s t : Session} {rs rest : List SendResult} {ret : Ret}
    (h : udpFlushOut s rs = some (t, ret, rest)) : s.sent.length ≤ t.sent.length := by
  induction rs generalizing s with
  | nil =>
      unfold udpFlushOut at h
      split_ifs at h <;> cases h <;> exact le_rfl
  | cons r rs ih =>
      unfold udpFlushOut at h
      split_ifs at h
      · cases r with
        | again =>
            cases h
            exact le_rfl
        | error e =>
            cases h
            exact le_rfl
        | sent k =>
            have hle := ih h
            simp only [List.length_append] at hle
            exact (Nat.le_add_right _ _).trans hle
      · cases h
        exact le_rfl

theorem udpFlushOut_sent_lt {s t : Session} {k : ℕ} {rs rest : List SendResult} {ret : Ret}
    (hlt : s.outOff < s.outLen) (h : udpFlushOut s (.sent k :: rs) = some (t, ret, rest)) :
    s.sent.length < t.sent.length := by
  unfold udpFlushOut at h
  rw [if_pos hlt] at h
  split_ifs at h
  have hle := udpFlushOut_sent_le h
  have hcount : 0 < SendResult.count k (s.outLen - s.outOff) :=
    lt_min (Nat.succ_pos k) (Nat.sub_pos_of_lt hlt)
  simp only [List.length_append, Memory.length_slice] at hle
  omega

theorem remoteToTcp_unsent {s : Session} {rs : List RecvfromResult} {ss : List SendResult}
    {p : Session × Ret} (hs : s.Unsent) (h : remoteToTcp s rs ss = some p) : p.1.Unsent := by
  induction rs generalizing s ss with
  | nil =>
      cases h
      exact hs
  | cons r rs ih =>
      unfold remoteToTcp at h
      split_ifs at h with hout
      · cases h
        exact hs
      · cases r with
        | again =>
            cases h
            exact hs
        | error e =>
            cases h
            exact hs
        | data d =>
            simp only at h
            split_ifs at h with hempty
            · exact ih hs h
            · obtain ⟨t, -, h⟩ := Option.bind_eq_some_iff.mp h
              split at h
              · cases h
              · rename_i hflush
                cases h
                exact udpFlushOut_unsent hflush
              · rename_i hflush
                exact ih (udpFlushOut_unsent hflush) h

/-- The handler of the client flushes first, and the reading loop does not touch the frame. -/
theorem udpClientDataEvent_downstream {s : Session} {now : Time} {ev : EpollEvents}
    {sends : List SendResult} {recvs : List RecvResult} {p : Session × Ret}
    (h : udpClientDataEvent now ev sends recvs s = some p) :
    ∃ t ret rest, (if 0 < s.outLen then udpFlushOut s sends else some (s, .ok, sends)) =
        some (t, ret, rest) ∧ p.1.downstream = t.downstream := by
  obtain ⟨⟨t, ret, rest⟩, hflush, h⟩ := Option.bind_eq_some_iff.mp h
  refine ⟨t, ret, rest, hflush, ?_⟩
  cases ret with
  | close =>
      cases h
      rfl
  | ok =>
      simp only at h
      split_ifs at h with hin hlen
      · exact clientDataLoop_downstream h
      · exact (clientDataLoop_downstream h).trans (finishFrame_downstream now t)
      · cases h
        rfl

theorem udpDispatch_unsent {s : Session} (hneg : s.localUdpFd < 0) (hs : s.Unsent)
    {e : SessionEvent} {p : Session × Ret} (h : udpDispatch s e = some p) : p.1.Unsent := by
  cases e with
  | client now ev sends recvs =>
      obtain ⟨t, ret, rest, hflush, heq⟩ := udpClientDataEvent_downstream h
      refine Session.Unsent.of_downstream ?_ heq
      split_ifs at hflush
      · exact udpFlushOut_unsent hflush
      · cases hflush
        exact hs
  | remote now froms sends =>
      simp only [udpDispatch, udpRemoteEvent, if_neg (Int.not_le.mpr hneg)] at h
      exact remoteToTcp_unsent (s := { s with lastActive := now }) hs h

/-- While a frame is pending no datagram is taken from the 5G socket. -/
theorem udpDispatch_arrived {s : Session} (hinv : DownstreamInv s) (hneg : s.localUdpFd < 0)
    (hout : 0 < s.outLen) {e : SessionEvent} {p : Session × Ret} (h : udpDispatch s e = some p) :
    p.1.arrived = s.arrived := by
  cases e with
  | client now ev sends recvs =>
      obtain ⟨t, ret, rest, hflush, heq⟩ := udpClientDataEvent_downstream h
      obtain ⟨t', ret', rest', hflush', hspec⟩ :=
        udpFlushOut_spec (s := { s with lastActive := now }) sends hinv.outOff_le hinv.outLen_le
      rw [if_pos hout, hflush'] at hflush
      cases hflush
      simp only [Session.downstream, Prod.mk.injEq] at heq
      exact heq.2.2.2.2.trans hspec.arrived
  | remote now froms sends =>
      simp only [udpDispatch, udpRemoteEvent, if_neg (Int.not_le.mpr hneg)] at h
      cases froms with
      | nil =>
          cases h
          rfl
      | cons r rs =>
          unfold remoteToTcp at h
          rw [if_pos hout] at h
          cases h
          rfl

/-! ### The masks along a run -/

namespace Masked

/-- The masks are those the outgoing frame asks for. -/
structure Armed (m : Masked) : Prop where
  client : m.clientEvents = m.session.clientInterest
  remote : m.remoteEvents = m.session.remoteInterest

/-- What holds between two events when the `epoll_ctl` calls succeed. -/
structure Inv (m : Masked) : Prop where
  session : SessionInv m.session
  remoteUdpFd_nonneg : 0 ≤ m.remoteUdpFd
  unsent : m.session.Unsent
  armed : m.session.closed = false → m.Armed

@[simp] theorem armClient_session (ok : Bool) (m : Masked) :
    (m.armClient ok).session = m.session := by
  unfold armClient
  split <;> rfl

@[simp] theorem armClient_remoteUdpFd (ok : Bool) (m : Masked) :
    (m.armClient ok).remoteUdpFd = m.remoteUdpFd := by
  unfold armClient
  split <;> rfl

@[simp] theorem armClient_remoteEvents (ok : Bool) (m : Masked) :
    (m.armClient ok).remoteEvents = m.remoteEvents := by
  unfold armClient
  split <;> rfl

@[simp] theorem armRemote_session (ok : Bool) (m : Masked) :
    (m.armRemote ok).session = m.session := by
  unfold armRemote
  split <;> rfl

@[simp] theorem armRemote_remoteUdpFd (ok : Bool) (m : Masked) :
    (m.armRemote ok).remoteUdpFd = m.remoteUdpFd := by
  unfold armRemote
  split <;> rfl

@[simp] theorem armRemote_clientEvents (ok : Bool) (m : Masked) :
    (m.armRemote ok).clientEvents = m.clientEvents := by
  unfold armRemote
  split <;> rfl

theorem armClient_true (m : Masked) :
    (m.armClient true).clientEvents = m.session.clientInterest := by
  unfold armClient
  split_ifs with hne
  · rfl
  · exact not_not.mp fun h => hne ⟨h, rfl⟩

theorem armClient_false (m : Masked) : m.armClient false = m :=
  if_neg fun h => Bool.false_ne_true h.2

theorem armRemote_false (m : Masked) : m.armRemote false = m :=
  if_neg fun h => Bool.false_ne_true h.2

theorem armRemote_true (m : Masked) :
    (m.armRemote true).remoteEvents = m.session.remoteInterest := by
  unfold armRemote
  split_ifs with hne
  · rfl
  · exact not_not.mp fun h => hne ⟨h, rfl⟩

@[simp] theorem udpUpdateEvents_session (clientOk remoteOk : Bool) (m : Masked) :
    (m.udpUpdateEvents clientOk remoteOk).session = m.session := by
  unfold udpUpdateEvents
  split
  · rfl
  · simp only
    split <;> simp

@[simp] theorem udpUpdateEvents_remoteUdpFd (clientOk remoteOk : Bool) (m : Masked) :
    (m.udpUpdateEvents clientOk remoteOk).remoteUdpFd = m.remoteUdpFd := by
  unfold udpUpdateEvents
  split
  · rfl
  · simp only
    split <;> simp

/-- An update whose calls succeed leaves the masks the session asks for. -/
theorem udpUpdateEvents_armed {m : Masked} (hopen : m.session.closed = false)
    (hneg : m.session.localUdpFd < 0) (hfd : 0 ≤ m.remoteUdpFd) :
    (m.udpUpdateEvents true true).Armed := by
  have heq : m.udpUpdateEvents true true = (m.armClient true).armRemote true := by
    unfold udpUpdateEvents
    rw [if_neg (by rw [hopen]; exact nofun)]
    simp [hneg, hfd]
  rw [heq]
  refine ⟨?_, ?_⟩
  · rw [armRemote_clientEvents, armClient_true, armRemote_session, armClient_session]
  · rw [armRemote_true, armRemote_session]

/-- The scan may close an open session, and changes none of the fields of its two directions. -/
theorem idleScan_open {m : Masked} (hopen : m.session.closed = false) (now : Time)
    (pendCount : ℕ) :
    ∃ s, m.idleScan now pendCount = { m with session := s } ∧
      s.upstream = m.session.upstream ∧ s.downstream = m.session.downstream ∧
      (s.closed = false ∧ s.closeKind = m.session.closeKind ∨
        s.closed = true ∧ s.closeKind = .idle) := by
  unfold idleScan
  rw [if_neg (by rw [hopen]; exact nofun)]
  simp only
  split_ifs with hout hidle hidle
  · exact ⟨_, rfl, rfl, rfl, Or.inr ⟨rfl, rfl⟩⟩
  · exact ⟨_, rfl, rfl, rfl, Or.inl ⟨hopen, rfl⟩⟩
  · exact ⟨_, rfl, rfl, rfl, Or.inr ⟨rfl, rfl⟩⟩
  · exact ⟨m.session, rfl, rfl, rfl, Or.inl ⟨hopen, rfl⟩⟩

theorem idleScan_closed {m : Masked} (hclosed : m.session.closed = true) (now : Time)
    (pendCount : ℕ) : m.idleScan now pendCount = m := by
  rw [idleScan, if_pos hclosed]

theorem Armed.of_eq {m : Masked} (h : m.Armed) {s : Session}
    (hup : s.upstream = m.session.upstream) (hdown : s.downstream = m.session.downstream) :
    Armed { m with session := s } := by
  simp only [Session.upstream, Prod.mk.injEq] at hup
  simp only [Session.downstream, Prod.mk.injEq] at hdown
  have hfd := hup.2.2.2.2.2.2.2
  have hlen := hdown.2.1
  refine ⟨?_, ?_⟩
  · simp only [Session.clientInterest, hfd, hlen]
    exact h.client
  · simp only [Session.remoteInterest, hlen]
    exact h.remote

theorem Inv.scan {m : Masked} (h : m.Inv) (now : Time) (pendCount : ℕ) :
    (m.idleScan now pendCount).Inv := by
  cases hopen : m.session.closed with
  | true =>
      rw [idleScan_closed hopen]
      exact h
  | false =>
      have hproto : m.session.closeKind ≠ .proto := fun hp => by
        have hclosed := h.session.closed_of_proto hp
        rw [hopen] at hclosed
        cases hclosed
      obtain ⟨s, heq, hup, hdown, hclose⟩ := idleScan_open hopen now pendCount
      have hproto' : s.closeKind ≠ .proto := by
        rcases hclose with ⟨-, hkind⟩ | ⟨-, hkind⟩ <;> rw [hkind]
        · exact hproto
        · exact nofun
      rw [heq]
      refine ⟨⟨h.session.up.of_eq hproto hproto' hup, h.session.down.of_eq hdown, ?_⟩,
        h.remoteUdpFd_nonneg, h.unsent.of_downstream hdown, fun _ => ?_⟩
      · exact fun hp => (hproto' hp).elim
      · exact (h.armed hopen).of_eq hup hdown

/-- A handler keeps what it leaves to the other handler, and the masks follow the frame. -/
theorem Inv.event {m : Masked} (h : m.Inv) (e : SessionEvent) :
    ∃ t, maskedStep m (.event e true true) = some t ∧ t.Inv := by
  obtain ⟨s, hs, hinv⟩ := udpTcpSessionStep_inv h.session e
  have hunsent : s.Unsent := by
    unfold udpTcpSessionStep at hs
    split_ifs at hs with hclosed
    · cases hs
      exact h.unsent
    · obtain ⟨p, hp, rfl⟩ := Option.map_eq_some_iff.mp hs
      have hp' := udpDispatch_unsent h.session.up.localUdpFd_neg h.unsent hp
      split
      · exact hp'
      · exact hp'
  refine ⟨_, by rw [maskedStep, hs]; rfl, ?_, ?_, ?_, fun hopen => ?_⟩
  · rw [udpUpdateEvents_session]
    exact hinv
  · rw [udpUpdateEvents_remoteUdpFd]
    exact h.remoteUdpFd_nonneg
  · rw [udpUpdateEvents_session]
    exact hunsent
  · rw [udpUpdateEvents_session] at hopen
    exact udpUpdateEvents_armed hopen hinv.up.localUdpFd_neg h.remoteUdpFd_nonneg

theorem Inv.step {m : Masked} (h : m.Inv) {e : MaskedEvent} (he : e.CtlOk) :
    ∃ t, maskedStep m e = some t ∧ t.Inv := by
  cases e with
  | event e clientOk remoteOk =>
      obtain ⟨rfl, rfl⟩ := he
      exact h.event e
  | scan now pendCount => exact ⟨_, rfl, h.scan now pendCount⟩

end Masked

theorem udpStartMasked_inv (inBuf outBuf lenBytes : ℕ → UInt8) (remoteUdpFd : ℕ) (now : Time) :
    (udpStartMasked inBuf outBuf lenBytes remoteUdpFd now).Inv where
  session := udpStartTcpSession_inv inBuf outBuf lenBytes now
  remoteUdpFd_nonneg := Int.natCast_nonneg remoteUdpFd
  unsent := fun hpos => absurd hpos (lt_irrefl 0)
  armed := fun _ => ⟨rfl, rfl⟩

namespace Masked

/-- The EPOLLOUT events of the client lead back to the datagrams: each one with which it accepts
something moves the frame forward, and when it has accepted the rest of the frame the 5G socket has
been armed again or the session was closed. -/
structure Rearms (m : Masked) : Prop where
  forward : ∀ now ev k sends recvs t,
    maskedStep m (.event (.client now ev (.sent k :: sends) recvs) true true) = some t →
      m.session.sent.length < t.session.sent.length
  rearmed : ∀ es t, Meets maskedStep (fun _ e => e.CtlOk) m es → run maskedStep m es = some t →
    m.session.sent.length + m.session.pending.length ≤ t.session.sent.length →
      ∃ fs u, fs <+: es ∧ run maskedStep m fs = some u ∧
        (u.session.closed = true ∨ u.remoteEvents.epollin = true)

/-- While the 5G socket stays masked the frame is only sent. -/
structure Draining (m t : Masked) : Prop where
  inv : t.Inv
  opened : t.session.closed = false
  outLen_pos : 0 < t.session.outLen
  arrived : t.session.arrived = m.session.arrived

theorem Inv.remote_epollin_iff {m : Masked} (h : m.Inv) (hopen : m.session.closed = false) :
    m.remoteEvents.epollin = true ↔ m.session.outLen = 0 := by
  rw [(h.armed hopen).remote, Session.remoteInterest]
  by_cases hout : 0 < m.session.outLen
  · simp [hout, hout.ne']
  · simp [Nat.eq_zero_of_not_pos hout]

theorem Inv.client_epollout_iff {m : Masked} (h : m.Inv) (hopen : m.session.closed = false) :
    m.clientEvents.epollout = true ↔ 0 < m.session.outLen := by
  rw [(h.armed hopen).client, Session.clientInterest_epollout]
  exact and_iff_right h.session.up.localUdpFd_neg

theorem Inv.client_epollin {m : Masked} (h : m.Inv) (hopen : m.session.closed = false) :
    m.clientEvents.epollin = true := by
  rw [(h.armed hopen).client, Session.clientInterest]
  have hneg : decide (m.session.localUdpFd < 0) = true :=
    decide_eq_true h.session.up.localUdpFd_neg
  simp only
  split_ifs <;> exact hneg

theorem step_arrived {m t : Masked} (h : m.Inv) (hopen : m.session.closed = false)
    (hout : 0 < m.session.outLen) {e : MaskedEvent} (ht : maskedStep m e = some t) :
    t.session.arrived = m.session.arrived := by
  cases e with
  | event e clientOk remoteOk =>
      obtain ⟨s, hs, rfl⟩ := Option.map_eq_some_iff.mp ht
      rw [udpUpdateEvents_session]
      unfold udpTcpSessionStep at hs
      rw [if_neg (by rw [hopen]; exact nofun)] at hs
      obtain ⟨p, hp, rfl⟩ := Option.map_eq_some_iff.mp hs
      have harrived :=
        udpDispatch_arrived h.session.down h.session.up.localUdpFd_neg hout hp
      split
      · exact harrived
      · exact harrived
  | scan now pendCount =>
      cases ht
      obtain ⟨s, heq, -, hdown, -⟩ := idleScan_open hopen now pendCount
      rw [heq]
      simp only [Session.downstream, Prod.mk.injEq] at hdown
      exact hdown.2.2.2.2

theorem Draining.step {m t u : Masked} (h : m.Draining t) {e : MaskedEvent} (he : e.CtlOk)
    (hu : maskedStep t e = some u) :
    m.Draining u ∨ (u.session.closed = true ∨ u.remoteEvents.epollin = true) := by
  obtain ⟨v, hv, hinv⟩ := h.inv.step he
  cases hu.symm.trans hv
  cases hopen : u.session.closed with
  | true => exact Or.inr (Or.inl rfl)
  | false =>
      by_cases hout : 0 < u.session.outLen
      · exact Or.inl ⟨hinv, hopen, hout,
          (step_arrived h.inv h.opened h.outLen_pos hu).trans h.arrived⟩
      · exact Or.inr (Or.inr ((hinv.remote_epollin_iff hopen).mpr (Nat.eq_zero_of_not_pos hout)))

/-- What the client has accepted and what is pending together stay the same, so it cannot have
accepted everything while something is pending. -/
theorem Draining.sent_lt {m t : Masked} (hm : m.Inv) (h : m.Draining t) :
    t.session.sent.length < m.session.sent.length + m.session.pending.length := by
  have hbytes : t.session.sent ++ t.session.pending = m.session.sent ++ m.session.pending := by
    rw [h.inv.session.down.bytes, h.arrived, hm.session.down.bytes]
  have hlen := congrArg List.length hbytes
  rw [List.length_append, List.length_append] at hlen
  have hpending : 0 < t.session.pending.length := by
    rw [Session.pending, Memory.length_slice]
    exact Nat.sub_pos_of_lt (h.inv.unsent h.outLen_pos)
  omega

theorem Inv.rearms {m : Masked} (h : m.Inv) (hopen : m.session.closed = false)
    (hout : 0 < m.session.outLen) : m.Rearms where
  forward := by
    intro now ev k sends recvs t ht
    obtain ⟨s, hs, rfl⟩ := Option.map_eq_some_iff.mp ht
    rw [udpUpdateEvents_session]
    unfold udpTcpSessionStep at hs
    rw [if_neg (by rw [hopen]; exact nofun)] at hs
    obtain ⟨p, hp, rfl⟩ := Option.map_eq_some_iff.mp hs
    obtain ⟨t, ret, rest, hflush, hdown⟩ := udpClientDataEvent_downstream hp
    rw [if_pos hout] at hflush
    have hlt := udpFlushOut_sent_lt (s := { m.session with lastActive := now }) (h.unsent hout)
      hflush
    simp only [Session.downstream, Prod.mk.injEq] at hdown
    rw [← hdown.2.2.2.1] at hlt
    split
    · exact hlt
    · exact hlt
  rearmed := by
    intro es t hok hrun hsent
    rcases run_until (P := m.Draining) (fun _ _ _ hd he hu => hd.step he hu)
      ⟨h, hopen, hout, rfl⟩ hok hrun with hd | hprefix
    · exact absurd hsent (Nat.not_le.mpr (hd.sent_lt h))
    · exact hprefix

end Masked

/-- After every event that leaves the session open the masks are those of the outgoing frame, and
whatever is unread on one of the sockets is waited for: EPOLLIN of that socket is armed, or it is
the 5G socket and the EPOLLOUT of the client that is armed leads to it. -/
theorem back_pressure_masks (inBuf outBuf lenBytes : ℕ → UInt8) (remoteUdpFd : ℕ) (now : Time)
    (es : List MaskedEvent)
    (hok : Meets maskedStep (fun _ e => e.CtlOk)
      (udpStartMasked inBuf outBuf lenBytes remoteUdpFd now) es) :
    ∃ m, run maskedStep (udpStartMasked inBuf outBuf lenBytes remoteUdpFd now) es = some m ∧
      (m.session.closed = false →
        (0 < m.session.outLen →
          m.clientEvents.epollout = true ∧ m.remoteEvents.epollin = false) ∧
        (m.session.outLen = 0 →
          m.remoteEvents.epollin = true ∧ m.clientEvents.epollout = false) ∧
        m.clientEvents.epollin = true ∧
        (m.remoteEvents.epollin = true ∨ m.clientEvents.epollout = true ∧ m.Rearms)) := by
  obtain ⟨m, hm, hinv⟩ := exists_run_of_meets (fun _ _ h he => Masked.Inv.step h he)
    (udpStartMasked_inv inBuf outBuf lenBytes remoteUdpFd now) hok
  refine ⟨m, hm, fun hopen => ?_⟩
  have hin := hinv.remote_epollin_iff hopen
  have hout := hinv.client_epollout_iff hopen
  refine ⟨fun hpos => ⟨hout.mpr hpos, ?_⟩, fun hzero => ⟨hin.mpr hzero, ?_⟩,
    hinv.client_epollin hopen, ?_⟩
  · exact Bool.eq_false_iff.mpr fun h => hpos.ne' (hin.mp h)
  · exact Bool.eq_false_iff.mpr fun h => (hout.mp h).ne' hzero
  · rcases Nat.eq_zero_or_pos m.session.outLen with hzero | hpos
    · exact Or.inl (hin.mpr hzero)
    · exact Or.inr ⟨hout.mpr hpos, hinv.rearms hopen hpos⟩

/-- One datagram of three bytes, of whose frame the client accepts five bytes. -/
def partialFrameRun : List MaskedEvent :=
  [.event (.remote 8 [.data ⟨.inet (octets 192 0 2 1) (0, 53), [1, 2, 3]⟩] [.sent 4]) true true]

theorem partialFrameRun_ctlOk (m : Masked) :
    Meets maskedStep (fun _ e => e.CtlOk) m partialFrameRun := by
  refine Meets.of_forall (fun e he => ?_) m
  rw [List.mem_singleton.mp he]
  exact ⟨rfl, rfl⟩

theorem back_pressure_masks_partial :
    ∃ m, run maskedStep (udpStartMasked (fun _ => 0) (fun _ => 0) (fun _ => 0) 6 7)
        partialFrameRun = some m ∧
      m.session.outLen = 15 ∧ m.session.outOff = 5 ∧ m.clientEvents.epollout = true ∧
      m.remoteEvents.epollin = false ∧ m.Rearms := by
  obtain ⟨m, hm, hlen, hoff, hopen⟩ : ∃ m, run maskedStep
      (udpStartMasked (fun _ => 0) (fun _ => 0) (fun _ => 0) 6 7) partialFrameRun = some m ∧
        m.session.outLen = 15 ∧ m.session.outOff = 5 ∧ m.session.closed = false :=
    exists_run_of_any (by decide +kernel)
  obtain ⟨m', hm', hmasks⟩ := back_pressure_masks (fun _ => 0) (fun _ => 0) (fun _ => 0) 6 7
    partialFrameRun (partialFrameRun_ctlOk _)
  cases hm.symm.trans hm'
  obtain ⟨hpos, -, -, hunread⟩ := hmasks hopen
  have hout := hpos (by rw [hlen]; decide)
  refine ⟨m, hm, hlen, hoff, hout.1, hout.2, ?_⟩
  rcases hunread with hin | ⟨-, hrearms⟩
  · rw [hout.2] at hin
    cases hin
  · exact hrearms

end FiveGProxy
