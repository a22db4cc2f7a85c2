import FiveGProxy.Relay.Streams
import FiveGProxy.Relay.Wakeup

/-!
# Idle events of the relay

An event is handled idly when the handler leaves the connection open, moves no byte and changes
nothing but `last_active`. Level-triggered polling then reports the same event again if an armed
condition is still ready. Every step of the handler that is not idle makes `Relay.progress`
larger, so in an idle event all steps leave the connection and the sockets as they are, and what
each of them has seen is still so at the end (`Relay.Stuck`).
-/

namespace FiveGProxy

open Memory Steps

/-- A turn of `try_send` sends something or changes nothing. -/
theorem TrySends.idle {fd : ℤ} {p : Pipe} {sock : StreamSocket} {t : SendTurn}
    (h : TrySends fd p sock t) (hoff : 0 < p.len → p.off < p.len) (hle : p.off ≤ p.len) :
    0 < t.accepted.length ∨ t.accepted = [] ∧ t.pipe = p ∧ t.sock = sock := by
  cases h with
  | noFd | blocked | failed => exact Or.inr ⟨rfl, rfl, rfl⟩
  | empty hempty =>
      obtain ⟨buf, len, off⟩ := p
      have hlen : len = 0 := by
        by_contra hne
        exact absurd (hoff (Nat.pos_of_ne_zero hne)) (Nat.not_lt.mpr hempty)
      subst hlen
      have hzero : off = 0 := Nat.le_zero.mp hle
      subst hzero
      exact Or.inr ⟨rfl, rfl, rfl⟩
  | part n hn hlt => exact Or.inl (by simpa using hn)
  | rest n hn heq => exact Or.inl (by simpa using hn)

/-- A turn that changes nothing is the last one, and it failed or found no room. -/
theorem TrySends.stuck {fd : ℤ} {p : Pipe} {sock : StreamSocket} {t : SendTurn}
    (h : TrySends fd p sock t) (hpipe : t.pipe = p) :
    ∃ r, t = ⟨p, sock, [], some r⟩ ∧ (r = .failed ∨ (0 < p.len → sock.room = 0)) := by
  cases h with
  | noFd | failed => exact ⟨_, rfl, Or.inl rfl⟩
  | blocked hroom => exact ⟨_, rfl, Or.inr fun _ => hroom⟩
  | empty hempty =>
      have hlen : 0 = p.len := congrArg Pipe.len hpipe
      exact ⟨_, congrArg (SendTurn.mk · sock [] (some .drained)) hpipe,
        Or.inr fun hpos => absurd hlen hpos.ne⟩
  | part n hn hlt =>
      have hoff : p.off + n = p.off := congrArg Pipe.off hpipe
      omega
  | rest n hn heq =>
      have hlen : 0 = p.len := congrArg Pipe.len hpipe
      omega

namespace Relay

def progress (s : Relay) : ℕ :=
  s.fromClient.length + s.toTarget.length + s.fromTarget.length + s.toClient.length +
    (if s.conn.clientEof then 1 else 0) + (if s.conn.targetEofSince = 0 then 0 else 1)

def core (s : Relay) :=
  (s.conn.c2t, s.conn.t2c, s.conn.clientEof, s.conn.targetEofSince, s.client.rx, s.client.fin,
    s.client.room, s.target.rx, s.target.fin, s.target.room)

def Advances (s t : Relay) : Prop :=
  s.progress < t.progress ∨ s.progress = t.progress ∧ t.core = s.core

theorem Advances.of_eq {s t : Relay} (hp : t.progress = s.progress) (hcore : t.core = s.core) :
    Advances s t := Or.inr ⟨hp.symm, hcore⟩

theorem afterSend_progress (s : Relay) (ret : Option SendRet) (next : RelayPc) :
    (s.afterSend ret next).progress = s.progress ∧ (s.afterSend ret next).core = s.core := by
  unfold afterSend
  split <;> exact ⟨rfl, rfl⟩

theorem accountUpload_progress (s : Relay) (ret : Option SendRet) :
    (s.accountUpload ret).progress = s.progress ∧ (s.accountUpload ret).core = s.core := by
  unfold accountUpload
  split <;> exact ⟨rfl, rfl⟩

theorem markTarget_advances (s : Relay) {pc : RelayPc} {fatal : Bool} :
    Advances s { s.markTarget with fatalError := fatal, pc := pc } := by
  unfold markTarget
  split
  · rename_i hmark
    have hzero : s.conn.targetEofSince = 0 := by
      simp only [marksTarget, Bool.and_eq_true, beq_iff_eq] at hmark
      exact hmark.1.1.2
    by_cases hnow : s.now = 0
    · refine Advances.of_eq ?_ ?_ <;> simp [progress, core, hzero, hnow]
    · refine Or.inl ?_
      simp [progress, hzero, hnow]
  · exact Advances.of_eq rfl rfl

theorem Handles.advances {s t : Relay} {e : RelayEvent} (h : StreamsInv s) (ht : Handles s e t) :
    Advances s t := by
  cases ht with
  | toClient next turn hpc hturn =>
      obtain ⟨hp, hcore⟩ := afterSend_progress ({ s with
        conn := { s.conn with t2c := turn.pipe }
        client := turn.sock
        toClient := s.toClient ++ turn.accepted } : Relay) turn.ret next
      rw [Advances, hp, hcore]
      rcases hturn.idle h.t2c.off_lt h.t2c.off_le with hsent | ⟨hnil, hpipe, hsock⟩
      · left
        simp [progress]
        omega
      · right
        rw [hnil, hpipe, hsock, List.append_nil]
        exact ⟨rfl, rfl⟩
  | toTarget next turn hpc hturn =>
      obtain ⟨hp, hcore⟩ := afterSend_progress (({ s with
        conn := { s.conn with c2t := turn.pipe }
        target := turn.sock
        sent := s.sent + turn.accepted.length
        toTarget := s.toTarget ++ turn.accepted } : Relay).accountUpload turn.ret) turn.ret next
      rw [Advances, hp, hcore, (accountUpload_progress _ _).1, (accountUpload_progress _ _).2]
      rcases hturn.idle h.c2t.off_lt h.c2t.off_le with hsent | ⟨hnil, hpipe, hsock⟩
      · left
        simp [progress]
        omega
      · right
        rw [hnil, hpipe, hsock, List.append_nil]
        exact ⟨rfl, rfl⟩
  | readClientData hpc hguard b bs rest hrx hle =>
      left
      simp [progress]
  | readClientEof hpc hguard hrx hfin =>
      left
      simp [progress, hguard.2.2]
  | readTargetData hpc hlen b bs rest hrx hle =>
      left
      simp [progress]
  | markFatal | markGrace | markHalfClosed | markProbe | markPending => exact s.markTarget_advances
  | _ => exact Advances.of_eq rfl rfl

def ClientFull (s : Relay) : Prop :=
  s.fatalError = false → 0 < s.conn.t2c.len → s.client.room = 0

def TargetFull (s : Relay) : Prop :=
  s.fatalError = false → 0 < s.conn.c2t.len → s.target.room = 0

def ClientRead (s : Relay) : Prop :=
  s.fatalError = false → s.conn.c2t.len = 0 → s.conn.clientEof = false →
    s.client.rx = [] ∧ s.client.fin = false

def TargetRead (s : Relay) : Prop :=
  s.fatalError = false → s.conn.t2c.len = 0 → s.target.rx = [] ∧ s.target.fin = false

/-- What all four have found out. -/
structure AllStuck (s : Relay) : Prop where
  client_full : s.ClientFull
  target_full : s.TargetFull
  client_read : s.ClientRead
  target_read : s.TargetRead

/-- What an idle handler has found out at the places it has passed. It never gets to send what
it has just read. -/
def Stuck (s : Relay) : Prop :=
  match s.pc with
  | .flushClient => True
  | .flushTarget => s.ClientFull
  | .readClient => s.ClientFull ∧ s.TargetFull
  | .sendTarget => False
  | .readTarget => s.ClientFull ∧ s.TargetFull ∧ s.ClientRead
  | .sendClient => False
  | .markEof => s.AllStuck
  | .probe => s.AllStuck ∧ s.fatalError = false
  | .ctlClient => s.AllStuck ∧ s.fatalError = false
  | .ctlTarget => s.AllStuck ∧ s.fatalError = false ∧
      (s.ctlOk = true → s.conn.clientEvents = s.conn.interest.1)
  | .wait => s.AllStuck ∧ s.fatalError = false ∧
      (s.ctlOk = true → s.conn.clientEvents = s.conn.interest.1 ∧
        s.conn.targetEvents = s.conn.interest.2)
  | .collect => True
  | .closed => True

theorem core_pipes {s t : Relay} (h : t.core = s.core) :
    t.conn.c2t = s.conn.c2t ∧ t.conn.t2c = s.conn.t2c := by
  simp only [core, Prod.mk.injEq] at h
  exact ⟨h.1, h.2.1⟩

theorem AllStuck.of_core {s t : Relay} (h : AllStuck s) (hcore : t.core = s.core)
    (hfatal : t.fatalError = false → s.fatalError = false) : AllStuck t := by
  simp only [core, Prod.mk.injEq] at hcore
  obtain ⟨hc2t, ht2c, heof, -, hcrx, hcfin, hcroom, htrx, htfin, htroom⟩ := hcore
  refine ⟨fun hf => ?_, fun hf => ?_, fun hf => ?_, fun hf => ?_⟩
  · rw [ht2c, hcroom]
    exact h.client_full (hfatal hf)
  · rw [hc2t, htroom]
    exact h.target_full (hfatal hf)
  · rw [hc2t, heof, hcrx, hcfin]
    exact h.client_read (hfatal hf)
  · rw [ht2c, htrx, htfin]
    exact h.target_read (hfatal hf)

theorem toClient_stuck {s : Relay} (h : Stuck s) {next : RelayPc} {turn : SendTurn}
    (hpc : s.pc = .flushClient ∧ 0 < s.conn.t2c.len ∧ next = .flushTarget ∨
      s.pc = .sendClient ∧ next = .markEof)
    (hturn : TrySends s.conn.clientFd s.conn.t2c s.client turn)
    (hpipe : turn.pipe = s.conn.t2c) :
    Stuck (({ s with
      conn := { s.conn with t2c := turn.pipe }
      client := turn.sock
      toClient := s.toClient ++ turn.accepted } : Relay).afterSend turn.ret next) := by
  rcases hpc with ⟨hpc, -, rfl⟩ | ⟨hpc, -⟩
  · obtain ⟨r, rfl, hroom⟩ := hturn.stuck hpipe
    cases r with
    | failed => exact nofun
    | blocked | drained => exact fun _ => hroom.resolve_left nofun
  · simp only [Stuck, hpc] at h

theorem toTarget_stuck {s : Relay} (h : Stuck s) {next : RelayPc} {turn : SendTurn}
    (hpc : s.pc = .flushTarget ∧ 0 < s.conn.c2t.len ∧ next = .readClient ∨
      s.pc = .sendTarget ∧ next = .readTarget)
    (hturn : TrySends s.conn.targetFd s.conn.c2t s.target turn)
    (hpipe : turn.pipe = s.conn.c2t) :
    Stuck ((({ s with
      conn := { s.conn with c2t := turn.pipe }
      target := turn.sock
      sent := s.sent + turn.accepted.length
      toTarget := s.toTarget ++ turn.accepted } : Relay).accountUpload turn.ret).afterSend
        turn.ret next) := by
  rcases hpc with ⟨hpc, -, rfl⟩ | ⟨hpc, -⟩
  · obtain ⟨r, rfl, hroom⟩ := hturn.stuck hpipe
    simp only [Stuck, hpc] at h
    cases r with
    | failed => exact ⟨(by rintro ⟨⟩), (by rintro ⟨⟩)⟩
    | blocked | drained => exact ⟨h, fun _ => hroom.resolve_left (by rintro ⟨⟩)⟩
  · simp only [Stuck, hpc] at h

/-- An idle step of the handler keeps what is known and adds what it finds out itself. -/
theorem Handles.stuck {s t : Relay} {e : RelayEvent} (h : Stuck s) (ht : Handles s e t)
    (hcore : t.core = s.core) : Stuck t := by
  obtain ⟨hc2t, ht2c⟩ := core_pipes hcore
  cases ht with
  | toClient next turn hpc hturn =>
      rw [afterSend_conn] at ht2c
      exact toClient_stuck h hpc hturn ht2c
  | toTarget next turn hpc hturn =>
      rw [afterSend_conn, accountUpload_conn] at hc2t
      exact toTarget_stuck h hpc hturn hc2t
  | skipClient hpc hlen => exact fun _ hpos => absurd hlen hpos.ne'
  | skipTarget hpc hlen =>
      simp only [Stuck, hpc] at h
      exact ⟨h, fun _ hpos => absurd hlen hpos.ne'⟩
  | skipReadClient hpc hskip =>
      simp only [Stuck, hpc] at h
      exact ⟨h.1, h.2, fun hf hlen heof => (hskip ⟨hf, hlen, heof⟩).elim⟩
  | readClientData hpc hguard b bs rest hrx hle =>
      have hlen := congrArg Pipe.len hc2t
      rw [hguard.2.1] at hlen
      cases hlen
  | readClientEof hpc hguard hrx hfin =>
      have heof : true = s.conn.clientEof := congrArg (fun c => c.2.2.1) hcore
      rw [hguard.2.2] at heof
      cases heof
  | readClientAgain hpc hrx hfin =>
      simp only [Stuck, hpc] at h
      exact ⟨h.1, h.2, fun _ _ _ => ⟨hrx, hfin⟩⟩
  | readClientError hpc => exact ⟨(by rintro ⟨⟩), (by rintro ⟨⟩), (by rintro ⟨⟩)⟩
  | skipReadTarget hpc hskip =>
      simp only [Stuck, hpc] at h
      exact ⟨h.1, h.2.1, h.2.2, fun hf hlen => (hskip ⟨hf, hlen⟩).elim⟩
  | readTargetData hpc hlen b bs rest hrx hle =>
      have hlen' := congrArg Pipe.len ht2c
      rw [hlen] at hlen'
      cases hlen'
  | readTargetAgain hpc hrx hfin =>
      simp only [Stuck, hpc] at h
      exact ⟨h.1, h.2.1, h.2.2, fun _ _ => ⟨hrx, hfin⟩⟩
  | readTargetEof hpc | readTargetError hpc =>
      exact ⟨(by rintro ⟨⟩), (by rintro ⟨⟩), (by rintro ⟨⟩), (by rintro ⟨⟩)⟩
  | markFatal hpc hfatal => trivial
  | markGrace hpc hfatal hempty heof hgrace => trivial
  | markHalfClosed hpc hfatal | markProbe hpc hfatal | markPending hpc hfatal =>
      simp only [Stuck, hpc] at h
      exact ⟨h.of_core hcore fun _ => hfatal, s.markTarget_fields.1.trans hfatal⟩
  | probeEof hpc => trivial
  | probeOpen hpc | probeError hpc =>
      simp only [Stuck, hpc] at h
      exact ⟨h.1.of_core hcore id, h.2⟩
  | ctlClientSame hpc hsame =>
      simp only [Stuck, hpc] at h
      exact ⟨h.1.of_core hcore id, h.2, fun _ => hsame⟩
  | ctlClientMod hpc =>
      simp only [Stuck, hpc] at h
      exact ⟨h.1.of_core hcore id, h.2, fun _ => rfl⟩
  | ctlClientFail hpc =>
      simp only [Stuck, hpc] at h
      exact ⟨h.1.of_core hcore id, h.2, (by rintro ⟨⟩)⟩
  | ctlTargetSame hpc hsame =>
      simp only [Stuck, hpc] at h
      exact ⟨h.1.of_core hcore id, h.2.1, fun hok => ⟨h.2.2 hok, hsame⟩⟩
  | ctlTargetMod hpc =>
      simp only [Stuck, hpc] at h
      exact ⟨h.1.of_core hcore id, h.2.1, fun hok => ⟨h.2.2 hok, rfl⟩⟩
  | ctlTargetFail hpc =>
      simp only [Stuck, hpc] at h
      exact ⟨h.1.of_core hcore id, h.2.1, (by rintro ⟨⟩)⟩
  | collect hpc => trivial

def Quiet (s : Relay) : Prop :=
  s.conn.clientEvents.wakes s.client.ready = false ∧
    s.conn.targetEvents.wakes s.target.ready = false

/-- Between the two states no byte was moved and no field but `last_active` was changed. -/
structure Idle (s t : Relay) : Prop where
  conn : t.conn = { s.conn with lastActive := t.conn.lastActive }
  fromClient : t.fromClient = s.fromClient
  toTarget : t.toTarget = s.toTarget
  fromTarget : t.fromTarget = s.fromTarget
  toClient : t.toClient = s.toClient

/-- A peer has sent its FIN, and the handler does not look for it because of data that waits for
the other peer. -/
def HiddenFin (s : Relay) : Prop :=
  s.client.fin = true ∧ s.conn.clientEof = false ∧ 0 < s.conn.c2t.len ∨
    s.target.fin = true ∧ s.conn.targetEofSince = 0 ∧ 0 < s.conn.t2c.len

theorem Idle.progress_eq {s t : Relay} (h : Idle s t) : t.progress = s.progress := by
  rw [progress, progress, h.conn, h.fromClient, h.toTarget, h.fromTarget, h.toClient]

/-- One side of the relay, when neither flushing nor reading finds anything to do. -/
theorem side_quiet_iff {sock : StreamSocket} {eof : Bool} {inLen outLen : ℕ}
    (hroom : 0 < outLen → sock.room = 0)
    (hrx : inLen = 0 → eof = false → sock.rx = [] ∧ sock.fin = false) :
    (mapFwdToEpoll ⟨!eof, !eof && !decide (0 < inLen), decide (0 < outLen)⟩).wakes sock.ready =
        false ↔ ¬ (sock.fin = true ∧ eof = false ∧ 0 < inLen) := by
  have hout : (decide (0 < outLen) && decide (0 < sock.room)) = false := by
    by_cases hlen : 0 < outLen
    · simp [hroom hlen]
    · simp [hlen]
  simp only [EpollEvents.wakes, mapFwdToEpoll, StreamSocket.ready, hout, Bool.and_false,
    Bool.or_false]
  cases eof with
  | true => simp
  | false =>
      by_cases hlen : 0 < inLen
      · simp [hlen]
      · obtain ⟨hrx, hfin⟩ := hrx (Nat.eq_zero_of_not_pos hlen) rfl
        simp [hlen, hrx, hfin]

/-- At the end of an idle handler only a hidden FIN is still ready. -/
theorem AllStuck.quiet_iff {s : Relay} (h : AllStuck s) (hopen : s.conn.closed = false)
    (hfatal : s.fatalError = false) (hclient : s.conn.clientEvents = s.conn.interest.1)
    (htarget : s.conn.targetEvents = s.conn.interest.2) : s.Quiet ↔ ¬ s.HiddenFin := by
  have hmasks : s.conn.interest =
      (mapFwdToEpoll ⟨!s.conn.clientEof, !s.conn.clientEof && !decide (0 < s.conn.c2t.len),
          decide (0 < s.conn.t2c.len)⟩,
        mapFwdToEpoll ⟨!decide (s.conn.targetEofSince ≠ 0),
          !decide (s.conn.targetEofSince ≠ 0) && !decide (0 < s.conn.t2c.len),
          decide (0 < s.conn.c2t.len)⟩) := by
    simp [FullConn.interest, connForwardInterest, hopen]
  have htargetSide := @side_quiet_iff s.target (decide (s.conn.targetEofSince ≠ 0)) _ _
    (h.target_full hfatal) fun hlen _ => h.target_read hfatal hlen
  rw [decide_eq_false_iff_not, not_not] at htargetSide
  rw [Quiet, hclient, htarget, hmasks, HiddenFin, not_or]
  exact and_congr (side_quiet_iff (h.client_full hfatal) (h.client_read hfatal)) htargetSide

/-- What holds inside the handling of one event that began in `s`. -/
structure PassInv (s t : Relay) : Prop where
  streams : StreamsInv t
  wake : WakeInv t
  progress_le : s.progress ≤ t.progress
  idle : t.progress = s.progress → t.core = s.core ∧ t.Stuck

end Relay

def RelayEvent.ofHandler : RelayEvent → Bool
  | .wakeup _ _ _ => false
  | .scan _ _ => false
  | .kernel _ _ => false
  | _ => true

theorem relayStep_ofHandler {s t : Relay} {e : RelayEvent} (he : e.ofHandler = true)
    (ht : relayStep s e = some t) : s.Handles e t := by
  cases e with
  | wakeup now isTarget ev => cases he
  | scan now peekError => cases he
  | kernel side e => cases he
  | _ => exact Relay.handle_spec ht

namespace Relay

theorem PassInv.step {s t u : Relay} {e : RelayEvent} (h : PassInv s t) (he : e.ofHandler = true)
    (hu : relayStep t e = some u) : PassInv s u := by
  have hh := relayStep_ofHandler he hu
  refine ⟨relayStep_streams h.streams hu, relayStep_wakeInv h.wake hu, ?_, fun hp => ?_⟩
  · rcases hh.advances h.streams with hlt | ⟨heq, -⟩
    · exact h.progress_le.trans hlt.le
    · exact h.progress_le.trans heq.le
  · rcases hh.advances h.streams with hlt | ⟨heq, hcore⟩
    · exact absurd (h.progress_le.trans_lt hlt) (by rw [hp]; exact lt_irrefl _)
    · obtain ⟨hcore', hstuck⟩ := h.idle (heq.trans hp)
      exact ⟨hcore.trans hcore', hh.stuck hstuck hcore⟩

theorem startHandler_passInv {s : Relay} (hs : StreamsInv s) (hw : WakeInv s) (hpc : s.pc = .wait)
    (now : Time) (isTarget : Bool) (ev : EpollEvents) :
    PassInv s (s.startHandler now isTarget ev) := by
  refine ⟨hs.of_eq rfl, startHandler_wakeInv hw hpc now isTarget ev, le_rfl, fun _ => ⟨rfl, ?_⟩⟩
  unfold Stuck
  simp only [startHandler]
  by_cases hfatal : (ev.epollerr || ev.epollhup) = true
  · simp [hfatal]
  · simp [hfatal]

end Relay

/-- In every reachable state, an event that is handled idly leaves no armed condition ready
exactly when no peer has a FIN that the handler does not look for because of pending data. -/
theorem relay_idle_quiet_iff (clientFd targetFd : ℕ) (c2tBuf t2cBuf : ℕ → UInt8) (start : Time)
    (es : List RelayEvent) (s : Relay)
    (hrun : run relayStep (handoffToWorker clientFd targetFd c2tBuf t2cBuf start) es = some s)
    (now : Time) (isTarget : Bool) (ev : EpollEvents) (hs : List RelayEvent)
    (hhandler : ∀ e ∈ hs, e.ofHandler = true) (t : Relay)
    (hpass : run relayStep s (.wakeup now isTarget ev :: hs) = some t) (hwait : t.pc = .wait)
    (hok : t.ctlOk = true) (hidle : s.Idle t) : t.Quiet ↔ ¬ s.HiddenFin := by
  obtain ⟨u, hu, hrest⟩ := run_cons_eq_some.mp hpass
  obtain ⟨⟨hpc, -⟩, rfl⟩ := Relay.wakeup_eq_some.mp hu
  have hstart := Relay.startHandler_passInv (run_streams hrun)
    (run_invariant (fun _ _ _ h ht => relayStep_wakeInv h ht)
      (handoffToWorker_wakeInv clientFd targetFd c2tBuf t2cBuf start) hrun) hpc now isTarget ev
  have hend : s.PassInv t :=
    run_invariant_of_meets (fun _ _ _ h he ht => h.step he ht) hstart
      (Meets.of_forall hhandler _) hrest
  obtain ⟨hcore, hstuck⟩ := hend.idle hidle.progress_eq
  simp only [Relay.Stuck, hwait] at hstuck
  obtain ⟨hall, hfatal, hmasks⟩ := hstuck
  have hopen : t.conn.closed = false := hend.wake.open_of_pc (by rw [hwait]; exact nofun)
  rw [hall.quiet_iff hopen hfatal (hmasks hok).1 (hmasks hok).2]
  simp only [Relay.core, Prod.mk.injEq] at hcore
  obtain ⟨hc2t, ht2c, heof, hsince, -, hcfin, -, -, htfin, -⟩ := hcore
  rw [Relay.HiddenFin, Relay.HiddenFin, hc2t, ht2c, heof, hsince, hcfin, htfin]

/-- The client has sent one byte and its FIN, both of which are read, and takes nothing of the two
bytes of the target. -/
def blockedAnswerRun : List RelayEvent :=
  [.kernel .client (.arrive [1]), .kernel .client .fin, .kernel .target (.arrive [2, 3]),
    .kernel .target (.room 9), .wakeup 7 false ⟨true, false, true, false, false⟩, .proceed, .proceed,
    .recv 9, .send (.sent 0), .recv 9, .send .again, .proceed, .epollCtl true, .epollCtl true,
    .wakeup 8 true ⟨true, false, false, false, false⟩, .send .again, .proceed, .recv 9, .proceed,
    .proceed, .epollCtl true, .proceed]

def blockedPass : List RelayEvent :=
  [.send .again, .proceed, .proceed, .proceed, .proceed, .proceed, .proceed]

theorem relay_idle_quiet_iff_halfClosed :
    ∃ s t, run relayStep (handoffToWorker 5 6 (fun _ => 0) (fun _ => 0) 7) blockedAnswerRun = some s ∧
      s.conn.clientEof = true ∧ s.conn.t2c.len = 2 ∧
      run relayStep s (.wakeup 9 false ⟨false, true, false, false, false⟩ :: blockedPass) =
        some t ∧ t.Quiet :=
  ⟨_, _, rfl, rfl, rfl, rfl, (relay_idle_quiet_iff 5 6 (fun _ => 0) (fun _ => 0) 7 blockedAnswerRun _
    rfl 9 false ⟨false, true, false, false, false⟩ blockedPass (by decide) _ rfl rfl rfl
    ⟨rfl, rfl, rfl, rfl, rfl⟩).mpr (by unfold Relay.HiddenFin; decide)⟩

def hiddenFinRun : List RelayEvent :=
  [.kernel .client (.arrive [1]), .kernel .client .fin,
    .wakeup 7 false ⟨true, false, true, false, false⟩, .proceed, .proceed, .recv 9, .send .again,
    .recv 0, .proceed, .epollCtl true, .epollCtl true]

def hiddenFinPass : List RelayEvent :=
  [.proceed, .send .again, .proceed, .recv 0, .proceed, .proceed, .proceed]

/-- There the event is handled idly and EPOLLRDHUP of the client is still armed and ready. -/
theorem hot_loop_hiddenFin :
    ¬ ∀ (s : Relay), run relayStep (handoffToWorker 5 6 (fun _ => 0) (fun _ => 0) 7) hiddenFinRun =
        some s → ∀ t, run relayStep s (.wakeup 8 false ⟨false, false, true, false, false⟩ ::
          hiddenFinPass) = some t → t.pc = .wait → t.ctlOk = true → s.Idle t → t.Quiet := by
  intro h
  have hquiet := h _ rfl _ rfl rfl rfl ⟨rfl, rfl, rfl, rfl, rfl⟩
  exact absurd hquiet.1 (by decide)

end FiveGProxy
