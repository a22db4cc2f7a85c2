import FiveGProxy.Relay.Wakeup

/-!
# The half-close grace

A half-closed connection is closed when its grace period is over, by the rule at the end of the
handler or by the scan. The clocks are started when a FIN is noticed and are never started again, so
a transfer that goes on is cut like one that has stalled. `recordGrace` keeps when a byte was
forwarded last and when each FIN was noticed; a check does no harm exactly when it comes in time.
-/

namespace FiveGProxy

open Memory Steps

/-- When a socket last accepted a byte, and when the FIN of each side was noticed; zero before. -/
structure GraceLog where
  forwarded : Option Time
  clientFin : Time
  targetFin : Time

def GraceLog.empty : GraceLog := ⟨none, 0, 0⟩

/-- A byte has been forwarded during the last `CONN_FWD_GRACE_SEC` seconds. -/
def GraceLog.active (log : GraceLog) (now : Time) : Bool :=
  match log.forwarded with
  | none => false
  | some f => decide (f ≤ now) && decide (now < f + connFwdGraceSec)

namespace Relay

/-- The time when this step learns that the target has sent its FIN, by EPOLLRDHUP or by the
`MSG_PEEK` of the scan. -/
def noticesTarget (s : Relay) : RelayEvent → Time
  | .proceed =>
      if s.pc = .markEof ∧ s.fatalError = false ∧ s.isTarget = true ∧ s.ev.epollrdhup = true then s.now
      else 0
  | .scan now peekError =>
      if s.pc = .wait ∧ 0 < s.conn.t2c.len ∧ peekError = false ∧ s.target.peek = .eof then now else 0
  | _ => 0

/-- One of the two half-close grace periods is over; a disjunct of `timedOut`. -/
def graceOver (s : Relay) (now : Time) : Bool :=
  s.conn.clientEof && connForwardGraceExpired now s.conn.eofSince connFwdGraceSec ||
    connForwardGraceExpired now s.conn.targetEofSince connFwdGraceSec

/-- The grace period of the client as it was before the scan's `MSG_PEEK`, which may have started that
of the target. -/
theorem scanPeek_graceOver_iff (s : Relay) (now : Time) (peekError : Bool) :
    (s.scanPeek now peekError).graceOver now = true ↔
      s.conn.clientEof = true ∧
          connForwardGraceExpired now s.conn.eofSince connFwdGraceSec = true ∨
        connForwardGraceExpired now (s.scanPeek now peekError).conn.targetEofSince
          connFwdGraceSec = true := by
  obtain ⟨since, hpeek⟩ := s.scanPeek_same now peekError
  rw [hpeek, graceOver, Bool.or_eq_true, Bool.and_eq_true]

/-- The handler is at its half-close rule: both buffers are empty and no error has occurred. -/
def AtGraceRule (s : Relay) : Prop :=
  s.pc = .markEof ∧ s.fatalError = false ∧ s.conn.c2t.len = 0 ∧ s.conn.t2c.len = 0

instance (s : Relay) : Decidable s.AtGraceRule := inferInstanceAs (Decidable (_ ∧ _))

def ClosesForGrace (s : Relay) : RelayEvent → Prop
  | .proceed =>
      s.AtGraceRule ∧ s.conn.clientEof = true ∧
        connForwardGraceExpired s.now s.conn.eofSince connFwdGraceSec = true
  | .scan now peekError => s.pc = .wait ∧ (s.scanPeek now peekError).graceOver now = true
  | _ => False

instance (s : Relay) : DecidablePred s.ClosesForGrace
  | .proceed => inferInstanceAs (Decidable (_ ∧ _))
  | .scan _ _ => inferInstanceAs (Decidable (_ ∧ _))
  | .wakeup .. | .send _ | .recv _ | .recvError | .peek | .epollCtl _ | .kernel .. =>
      inferInstanceAs (Decidable False)

def checkTime (s : Relay) : RelayEvent → Time
  | .scan now _ => now
  | _ => s.now

/-- The rule at the end of the handler does what `ClosesForGrace` says. -/
theorem markEof_fatal_iff {s t : Relay} (hpc : s.pc = .markEof) (hfatal : s.fatalError = false)
    (h : relayStep s .proceed = some t) : t.fatalError = true ↔ s.ClosesForGrace .proceed := by
  have hstep : s.handle .proceed = some t := h
  unfold handle at hstep
  rw [hpc] at hstep
  cases markEof_handles hpc hstep with
  | markFatal _ hf => rw [hfatal] at hf; cases hf
  | markGrace _ _ hempty heof hgrace =>
      exact ⟨fun _ => ⟨⟨hpc, hfatal, hempty.1, hempty.2⟩, heof, hgrace⟩, fun _ => rfl⟩
  | markHalfClosed _ _ _ _ hgrace =>
      refine ⟨fun ht => ?_, fun hcl => ?_⟩
      · rw [s.markTarget_fields.1, hfatal] at ht
        cases ht
      · rw [hcl.2.2] at hgrace
        cases hgrace
  | markProbe _ _ _ heof =>
      refine ⟨fun ht => ?_, fun hcl => ?_⟩
      · rw [s.markTarget_fields.1, hfatal] at ht
        cases ht
      · rw [hcl.2.1] at heof
        cases heof
  | markPending _ _ hpending =>
      refine ⟨fun ht => ?_, fun hcl => absurd hcl.1.2.2 hpending⟩
      rw [s.markTarget_fields.1, hfatal] at ht
      cases ht
  | _ => simp_all

theorem scan_closed_iff {s t : Relay} {now : Time} {peekError : Bool}
    (h : relayStep s (.scan now peekError) = some t) :
    t.pc = .closed ↔
      idleTimeoutSec < now - s.conn.lastActive ∨ s.ClosesForGrace (.scan now peekError) := by
  have hscan : s.scan now peekError = some t := h
  unfold scan at hscan
  split at hscan
  case isFalse => cases hscan
  case isTrue hpc =>
    have hsame : (s.scanPeek now peekError).conn.lastActive = s.conn.lastActive ∧
        (s.scanPeek now peekError).pc = s.pc := by
      obtain ⟨since, heq⟩ := s.scanPeek_same now peekError
      rw [heq]
      exact ⟨rfl, rfl⟩
    have hactive := hsame.1
    have hpeek := hsame.2.trans hpc
    have hover : (s.scanPeek now peekError).timedOut now = true ↔
        idleTimeoutSec < now - s.conn.lastActive ∨ s.ClosesForGrace (.scan now peekError) := by
      simp only [timedOut, ClosesForGrace, graceOver, Bool.or_eq_true, decide_eq_true_eq, hactive, hpc,
        true_and, or_assoc]
    dsimp only at hscan
    rw [← hover]
    split at hscan
    case isTrue htimed =>
      cases hscan
      exact ⟨fun _ => htimed, fun _ => rfl⟩
    case isFalse htimed =>
      cases hscan
      rw [hpeek]
      exact ⟨nofun, fun hover => absurd hover htimed⟩

end Relay

def recordGrace (s : Relay) (e : RelayEvent) (log : GraceLog) : GraceLog :=
  match relayStep s e with
  | none => log
  | some t => {
      forwarded :=
        if s.toClient.length + s.toTarget.length < t.toClient.length + t.toTarget.length then some s.now
        else log.forwarded
      clientFin :=
        if s.client.finRead = false ∧ t.client.finRead = true then s.now else log.clientFin
      targetFin := if log.targetFin = 0 then s.noticesTarget e else log.targetFin }

/-- The step closes a half-closed connection although a byte has just been forwarded. -/
def CutsTransfer (p : Relay × GraceLog) (e : RelayEvent) : Prop :=
  p.1.ClosesForGrace e ∧ p.2.active (p.1.checkTime e) = true

/-- A check that comes while bytes are being forwarded comes before the grace period is over: for
the scan both periods, for the rule of the handler, which needs empty buffers, that of the client. -/
def InGrace (p : Relay × GraceLog) : RelayEvent → Prop
  | .proceed =>
      p.1.AtGraceRule → p.2.active p.1.now = true →
        p.2.clientFin = 0 ∨ p.1.now < p.2.clientFin + connFwdGraceSec
  | .scan now _ =>
      p.1.pc = .wait → p.2.active now = true →
        (p.2.clientFin = 0 ∨ now < p.2.clientFin + connFwdGraceSec) ∧
          (p.2.targetFin = 0 ∨ now < p.2.targetFin + connFwdGraceSec)
  | _ => True

instance (p : Relay × GraceLog) : DecidablePred (CutsTransfer p) := fun _ =>
  inferInstanceAs (Decidable (_ ∧ _))

instance (p : Relay × GraceLog) : DecidablePred (InGrace p)
  | .proceed => inferInstanceAs (Decidable (_ → _))
  | .scan _ _ => inferInstanceAs (Decidable (_ → _))
  | .wakeup .. | .send _ | .recv _ | .recvError | .peek | .epollCtl _ | .kernel .. =>
      inferInstanceAs (Decidable True)

/-! ### The clocks -/

/-- The clocks of the connection show when each FIN was noticed. -/
structure Clocks (s : Relay) (log : GraceLog) : Prop where
  targetFd : 0 ≤ s.conn.targetFd
  finRead : s.conn.clientEof = s.client.finRead
  client : s.conn.clientEof = true → s.conn.eofSince = log.clientFin
  open_client : s.conn.clientEof = false → log.clientFin = 0
  target : s.conn.targetEofSince = log.targetFin

namespace Clocks

variable {s t : Relay} {log : GraceLog} {e : RelayEvent}

theorem init (clientFd targetFd : ℕ) (c2tBuf t2cBuf : ℕ → UInt8) (now : Time) :
    Clocks (handoffToWorker clientFd targetFd c2tBuf t2cBuf now) .empty :=
  ⟨Int.natCast_nonneg targetFd, rfl, nofun, fun _ => rfl, rfl⟩

/-- A step that reads nothing from the client that ends its stream. -/
theorem of_client (h : Clocks s log) (ht : relayStep s e = some t)
    (hfd : t.conn.targetFd = s.conn.targetFd) (heof : t.conn.clientEof = s.conn.clientEof)
    (hsince : t.conn.eofSince = s.conn.eofSince) (hread : t.client.finRead = s.client.finRead)
    (htarget : t.conn.targetEofSince = (recordGrace s e log).targetFin) :
    Clocks t (recordGrace s e log) := by
  have hclient : (recordGrace s e log).clientFin = log.clientFin := by
    simp only [recordGrace, ht, hread]
    rw [if_neg]
    rintro ⟨hfalse, htrue⟩
    exact absurd (hfalse.symm.trans htrue) nofun
  refine ⟨?_, ?_, ?_, ?_, htarget⟩
  · rw [hfd]
    exact h.targetFd
  · rw [heof, hread]
    exact h.finRead
  · rw [heof, hsince, hclient]
    exact h.client
  · rw [heof, hclient]
    exact h.open_client

theorem of_eq (h : Clocks s log) (ht : relayStep s e = some t) (hnotice : s.noticesTarget e = 0)
    (hfd : t.conn.targetFd = s.conn.targetFd) (heof : t.conn.clientEof = s.conn.clientEof)
    (hsince : t.conn.eofSince = s.conn.eofSince)
    (htarget : t.conn.targetEofSince = s.conn.targetEofSince)
    (hread : t.client.finRead = s.client.finRead) : Clocks t (recordGrace s e log) := by
  have hfin : (recordGrace s e log).targetFin = log.targetFin := by
    simp only [recordGrace, ht, hnotice]
    split
    case isTrue hzero => exact hzero.symm
    case isFalse => rfl
  refine h.of_client ht hfd heof hsince hread ?_
  rw [htarget, hfin]
  exact h.target

/-- `recv` on the client returns 0. -/
theorem readClientEof (h : Clocks s log) (hopen : s.conn.clientEof = false)
    (hpc : s.pc = .readClient)
    (ht : relayStep s e = some { s with
      conn := { s.conn with clientEof := true, eofSince := s.now }
      client := { s.client with finRead := true }
      pc := .readTarget })
    (hscan : ∀ now peekError, e ≠ .scan now peekError) :
    Clocks { s with
      conn := { s.conn with clientEof := true, eofSince := s.now }
      client := { s.client with finRead := true }
      pc := .readTarget } (recordGrace s e log) := by
  have hnotice : s.noticesTarget e = 0 := by
    cases e with
    | scan now peekError => exact absurd rfl (hscan now peekError)
    | proceed => simp [Relay.noticesTarget, hpc]
    | _ => rfl
  have hread : s.client.finRead = false := by rw [← h.finRead, hopen]
  refine ⟨h.targetFd, rfl, fun _ => ?_, (by rintro ⟨⟩), ?_⟩
  · simp [recordGrace, ht, hread]
  · simp only [recordGrace, ht, hnotice]
    rw [h.target]
    split
    case isTrue hzero => exact hzero
    case isFalse => rfl

/-- The end of the handler, where EPOLLRDHUP of the target is recorded. -/
theorem markTarget (h : Clocks s log) (hpc : s.pc = .markEof)
    (ht : relayStep s .proceed = some t) (hconn : t.conn = s.markTarget.conn)
    (hclient : t.client = s.client) : Clocks t (recordGrace s .proceed log) := by
  obtain ⟨-, -, -, -, heof, hsince⟩ := s.markTarget_fields
  have hfd : s.markTarget.conn.targetFd = s.conn.targetFd := by
    unfold Relay.markTarget
    split <;> rfl
  refine h.of_client ht (hconn ▸ hfd) (hconn ▸ heof) (hconn ▸ hsince) (by rw [hclient]) ?_
  rw [hconn]
  simp only [recordGrace, ht]
  by_cases hzero : log.targetFin = 0
  · rw [if_pos hzero, Relay.markTarget, Relay.noticesTarget]
    have hunset : s.conn.targetEofSince = 0 := h.target.trans hzero
    by_cases hmark : s.marksTarget = true
    · have hcond : s.fatalError = false ∧ s.isTarget = true ∧ s.ev.epollrdhup = true := by
        simpa [Relay.marksTarget, hunset, h.targetFd, and_assoc] using hmark
      rw [if_pos hmark, if_pos ⟨hpc, hcond⟩]
    · have hcond : ¬(s.fatalError = false ∧ s.isTarget = true ∧ s.ev.epollrdhup = true) := by
        simpa [Relay.marksTarget, hunset, h.targetFd, and_assoc] using hmark
      rw [if_neg hmark, if_neg fun hall => hcond hall.2, hunset]
  · have hset : s.marksTarget = false := by
      simp [Relay.marksTarget, h.target, hzero]
    rw [if_neg hzero, Relay.markTarget, hset]
    exact h.target

theorem scan (h : Clocks s log) {now : Time} {peekError : Bool}
    (ht : relayStep s (.scan now peekError) = some t) :
    Clocks t (recordGrace s (.scan now peekError) log) := by
  obtain ⟨hpc, hcases⟩ := Relay.scan_eq_some ht
  have hsame : t.client = s.client ∧ t.conn.targetFd = s.conn.targetFd ∧
      t.conn.clientEof = s.conn.clientEof ∧ t.conn.eofSince = s.conn.eofSince ∧
      t.conn.targetEofSince = (s.scanPeek now peekError).conn.targetEofSince := by
    rcases hcases with rfl | rfl <;> unfold Relay.scanPeek <;> split <;>
      exact ⟨rfl, rfl, rfl, rfl, rfl⟩
  obtain ⟨hclient, hfd, heof, hsince, htarget⟩ := hsame
  refine h.of_client ht hfd heof hsince (by rw [hclient]) ?_
  rw [htarget]
  simp only [recordGrace, ht]
  by_cases hzero : log.targetFin = 0
  · have hunset : s.conn.targetEofSince = 0 := h.target.trans hzero
    rw [if_pos hzero, Relay.scanPeek, Relay.noticesTarget]
    by_cases hpeek : 0 < s.conn.t2c.len ∧ peekError = false ∧ s.target.peek = .eof
    · rw [if_pos ⟨hunset, hpeek.1, h.targetFd, hpeek.2⟩, if_pos ⟨hpc, hpeek⟩]
    · rw [if_neg fun hall => hpeek ⟨hall.2.1, hall.2.2.2⟩, if_neg fun hall => hpeek hall.2]
      exact hunset
  · have hset : ¬(s.conn.targetEofSince = 0) := by rwa [h.target]
    rw [if_neg hzero, Relay.scanPeek, if_neg fun hall => hset hall.1]
    exact h.target

theorem handle (h : Clocks s log) (ht : s.handle e = some t) (hstep : relayStep s e = some t)
    (hscan : ∀ now peekError, e ≠ .scan now peekError) : Clocks t (recordGrace s e log) := by
  have hnotice : s.pc ≠ .markEof → s.noticesTarget e = 0 := by
    intro hpc
    cases e with
    | scan now peekError => exact absurd rfl (hscan now peekError)
    | proceed => simp [Relay.noticesTarget, hpc]
    | _ => rfl
  have hmark : s.pc = .markEof → t.conn = s.markTarget.conn → t.client = s.client →
      Clocks t (recordGrace s e log) := by
    intro hpc hconn hclient
    cases e with
    | proceed => exact h.markTarget hpc hstep hconn hclient
    | _ => simp [Relay.handle, hpc, Relay.markEof] at ht
  have hclient : s.markTarget.client = s.client := s.markTarget_client.2.2
  cases Relay.handle_spec ht with
  | toClient next turn hpc hturn =>
      have hne : s.pc ≠ .markEof := by
        rcases hpc with ⟨hpc, -⟩ | ⟨hpc, -⟩ <;> rw [hpc] <;> rintro ⟨⟩
      refine h.of_eq hstep (hnotice hne) ?_ ?_ ?_ ?_ ?_ <;> simp [hturn.sock_eq.2.2]
  | toTarget next turn hpc hturn =>
      have hne : s.pc ≠ .markEof := by
        rcases hpc with ⟨hpc, -⟩ | ⟨hpc, -⟩ <;> rw [hpc] <;> rintro ⟨⟩
      refine h.of_eq hstep (hnotice hne) ?_ ?_ ?_ ?_ ?_ <;> simp
  | readClientEof hpc hguard => exact h.readClientEof hguard.2.2 hpc hstep hscan
  | markFatal hpc | markGrace hpc | markHalfClosed hpc | markProbe hpc | markPending hpc =>
      exact hmark hpc rfl hclient
  | skipClient hpc | skipTarget hpc | skipReadClient hpc | readClientData hpc | readClientAgain hpc
  | readClientError hpc | skipReadTarget hpc | readTargetData hpc | readTargetAgain hpc
  | readTargetEof hpc | readTargetError hpc | probeEof hpc | probeOpen hpc | probeError hpc
  | ctlClientSame hpc | ctlClientMod hpc | ctlClientFail hpc | ctlTargetSame hpc | ctlTargetMod hpc
  | ctlTargetFail hpc | collect hpc =>
      exact h.of_eq hstep (hnotice (by rw [hpc]; rintro ⟨⟩)) rfl rfl rfl rfl rfl

theorem step (h : Clocks s log) (ht : relayStep s e = some t) : Clocks t (recordGrace s e log) := by
  cases e with
  | wakeup now isTarget ev =>
      obtain ⟨-, rfl⟩ := Relay.wakeup_eq_some.mp ht
      exact h.of_eq ht rfl rfl rfl rfl rfl rfl
  | scan now peekError => exact h.scan ht
  | kernel side k =>
      cases side with
      | client =>
          obtain ⟨sock, hsock, rfl⟩ := Option.map_eq_some_iff.mp ht
          refine h.of_eq ht rfl rfl rfl rfl rfl ?_
          cases k with
          | arrive bytes =>
              simp only [StreamSocket.kernelStep] at hsock
              split at hsock <;> cases hsock
              rfl
          | fin | room n =>
              cases hsock
              rfl
      | target =>
          obtain ⟨sock, -, rfl⟩ := Option.map_eq_some_iff.mp ht
          exact h.of_eq ht rfl rfl rfl rfl rfl rfl
  | _ => exact h.handle ht ht (by rintro _ _ ⟨⟩)

theorem expired_iff {now since : ℕ} :
    connForwardGraceExpired now since connFwdGraceSec = true ↔
      ¬(since = 0 ∨ now < since + connFwdGraceSec) := by
  unfold connForwardGraceExpired connFwdGraceSec
  split
  case isTrue hzero => simp [hzero]
  case isFalse hset =>
    have hpos : 0 < since := Nat.pos_of_ne_zero hset
    have harith : since + 2 ≤ now ↔ ¬(since = 0 ∨ now < since + 2) := by omega
    rw [decide_eq_true_eq]
    exact harith

theorem client_expired_iff (h : Clocks s log) (now : Time) :
    (s.conn.clientEof = true ∧
        connForwardGraceExpired now s.conn.eofSince connFwdGraceSec = true) ↔
      ¬(log.clientFin = 0 ∨ now < log.clientFin + connFwdGraceSec) := by
  cases heof : s.conn.clientEof with
  | true => rw [h.client heof, expired_iff, and_iff_right rfl]
  | false => simp [h.open_client heof]

theorem target_expired_iff (h : Clocks s log) (now : Time) (peekError : Bool) :
    connForwardGraceExpired now (s.scanPeek now peekError).conn.targetEofSince connFwdGraceSec = true ↔
      ¬(log.targetFin = 0 ∨ now < log.targetFin + connFwdGraceSec) := by
  unfold Relay.scanPeek
  split
  case isTrue hpeek =>
    have hunset : log.targetFin = 0 := h.target ▸ hpeek.1
    rw [expired_iff]
    simp [hunset, connFwdGraceSec]
  case isFalse => rw [expired_iff, h.target]

theorem inGrace_iff (h : Clocks s log) (e : RelayEvent) :
    ¬CutsTransfer (s, log) e ↔ InGrace (s, log) e := by
  cases e with
  | proceed =>
      have hexp := h.client_expired_iff s.now
      simp only [CutsTransfer, InGrace, Relay.ClosesForGrace, Relay.checkTime, hexp]
      constructor
      · intro hcut hat hactive
        by_contra hno
        exact hcut ⟨⟨hat, hno⟩, hactive⟩
      · rintro hgrace ⟨⟨hat, hno⟩, hactive⟩
        exact hno (hgrace hat hactive)
  | scan now peekError =>
      have hexp := h.client_expired_iff now
      have hover : (s.scanPeek now peekError).graceOver now = true ↔
          ¬(log.clientFin = 0 ∨ now < log.clientFin + connFwdGraceSec) ∨
            ¬(log.targetFin = 0 ∨ now < log.targetFin + connFwdGraceSec) := by
        rw [s.scanPeek_graceOver_iff, hexp, h.target_expired_iff]
      simp only [CutsTransfer, InGrace, Relay.ClosesForGrace, Relay.checkTime, hover]
      constructor
      · intro hcut hwait hactive
        by_contra hno
        exact hcut ⟨⟨hwait, not_and_or.mp hno⟩, hactive⟩
      · rintro hgrace ⟨⟨hwait, hno⟩, hactive⟩
        exact not_and_or.mpr hno (hgrace hwait hactive)
  | _ => exact iff_of_true (fun hcut => hcut.1) trivial

end Clocks

/-- In every run, the grace rule and the scan leave every connection alone that has forwarded a byte
during the last `CONN_FWD_GRACE_SEC` seconds if and only if every such check comes in time. -/
theorem active_transfer_not_cut (clientFd targetFd : ℕ) (c2tBuf t2cBuf : ℕ → UInt8) (now : Time)
    (es : List RelayEvent) :
    Meets (record relayStep recordGrace) (fun p e => ¬CutsTransfer p e)
        (handoffToWorker clientFd targetFd c2tBuf t2cBuf now, .empty) es ↔
      Meets (record relayStep recordGrace) InGrace
        (handoffToWorker clientFd targetFd c2tBuf t2cBuf now, .empty) es := by
  refine Meets.congr (P := fun p : Relay × GraceLog => Clocks p.1 p.2) (fun p e q h hstep => ?_)
    (fun p e h => h.inGrace_iff e) (Clocks.init clientFd targetFd c2tBuf t2cBuf now) es
  obtain ⟨ht, hlog⟩ := record_eq_some.mp hstep
  exact hlog ▸ h.step ht

/-- The target sends three bytes and its FIN; the client has room for one byte in each second. -/
def slowReaderRun : List RelayEvent :=
  List.flatten [
    [.kernel .target (.arrive [1, 2, 3]), .kernel .target .fin,
      .wakeup 10 true ⟨true, false, true, false, false⟩, .proceed, .proceed, .recv 0, .recv 9,
      .send .again, .proceed, .epollCtl true, .epollCtl true],
    [.kernel .client (.room 1), .wakeup 11 false ⟨false, true, false, false, false⟩,
      .send (.sent 0), .send .again, .proceed, .recv 0, .proceed, .proceed, .proceed, .proceed],
    [.kernel .client (.room 1), .wakeup 12 false ⟨false, true, false, false, false⟩,
      .send (.sent 0), .send .again, .proceed, .recv 0, .proceed, .proceed, .proceed, .proceed]]

/-- The client sends its FIN; two seconds later a byte of the target arrives and is forwarded. -/
def lateAnswerRun : List RelayEvent :=
  [.kernel .client .fin, .kernel .client (.room 9),
    .wakeup 10 false ⟨true, false, true, false, false⟩, .proceed, .proceed, .recv 0, .recv 0,
    .proceed, .epollCtl true, .proceed, .kernel .target (.arrive [1]),
    .wakeup 12 true ⟨true, false, false, false, false⟩, .proceed, .proceed, .proceed, .recv 9,
    .send (.sent 0)]

/-- The scan cuts the slow reader off with a byte still to come, and the rule at the end of the
handler closes the other connection right after it has forwarded a byte. -/
theorem transfer_cut :
    (∃ s t log, run (record relayStep recordGrace)
        (handoffToWorker 5 6 (fun _ => 0) (fun _ => 0) 7, .empty) slowReaderRun = some (s, log) ∧
      log.forwarded = some 12 ∧ s.conn.t2c.pending = [3] ∧ CutsTransfer (s, log) (.scan 12 false) ∧
      relayStep s (.scan 12 false) = some t ∧ t.pc = .closed) ∧
    ∃ s t log, run (record relayStep recordGrace)
        (handoffToWorker 5 6 (fun _ => 0) (fun _ => 0) 7, .empty) lateAnswerRun = some (s, log) ∧
      log.forwarded = some 12 ∧ s.toClient = [1] ∧ CutsTransfer (s, log) .proceed ∧
      relayStep s .proceed = some t ∧ t.pc = .collect :=
  ⟨⟨_, _, _, rfl, rfl, by decide, by decide, rfl, rfl⟩,
    ⟨_, _, _, rfl, rfl, by decide, by decide, rfl, rfl⟩⟩

end FiveGProxy
