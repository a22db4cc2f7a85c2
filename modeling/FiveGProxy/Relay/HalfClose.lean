import FiveGProxy.Relay.Grace

/-!
# Half-closed connections

The event loop reaps a connection whose client has sent its FIN when the grace is over and both
buffers are empty. The scan asks for the grace only, so the two agree when nothing is left in the
buffers. The worker may learn at several places that the target has sent its FIN; the one that reads
from it closes the connection at once, also when there is still an upload to be sent.
-/

namespace FiveGProxy

open Memory Steps

namespace Relay

/-! ### A client that has sent its FIN -/

def clientGraceOver (s : Relay) (now : Time) : Bool :=
  s.conn.clientEof && connForwardGraceExpired now s.conn.eofSince connFwdGraceSec

def ScanReaps (s : Relay) (now : Time) (peekError : Bool) : Prop :=
  ∃ t, relayStep s (.scan now peekError) = some t ∧ t.pc = .closed ∧ s.clientGraceOver now = true

def EventRuleReaps (s : Relay) (now : Time) : Prop :=
  ∃ t, relayStep { s with pc := .markEof, now := now, fatalError := false } .proceed = some t ∧
    t.fatalError = true

def Drained (s : Relay) : Prop := s.conn.c2t.len = 0 ∧ s.conn.t2c.len = 0

instance (s : Relay) : Decidable s.Drained := inferInstanceAs (Decidable (_ ∧ _))

theorem scanReaps_iff {s : Relay} {now : Time} {peekError : Bool} :
    s.ScanReaps now peekError ↔ s.pc = .wait ∧ s.clientGraceOver now = true := by
  constructor
  · rintro ⟨t, ht, -, hover⟩
    exact ⟨(scan_eq_some ht).1, hover⟩
  · rintro ⟨hpc, hover⟩
    obtain ⟨t, ht⟩ := exists_scan hpc now peekError
    refine ⟨t, ht, (scan_closed_iff ht).mpr (Or.inr ⟨hpc, ?_⟩), hover⟩
    exact (s.scanPeek_graceOver_iff now peekError).mpr (Or.inl (Bool.and_eq_true_iff.mp hover))

theorem eventRuleReaps_iff {s : Relay} {now : Time} :
    s.EventRuleReaps now ↔ s.clientGraceOver now = true ∧ s.Drained := by
  obtain ⟨t, ht⟩ : ∃ t, relayStep { s with pc := .markEof, now := now, fatalError := false }
      .proceed = some t := by
    simp only [relayStep, handle, markEof]
    repeat' split
    all_goals exact ⟨_, rfl⟩
  have hiff := markEof_fatal_iff (s := { s with pc := .markEof, now := now, fatalError := false })
    rfl rfl ht
  have hcloses :
      ClosesForGrace { s with pc := .markEof, now := now, fatalError := false } .proceed ↔
        s.clientGraceOver now = true ∧ s.Drained := by
    simp only [ClosesForGrace, AtGraceRule, clientGraceOver, Drained, Bool.and_eq_true, true_and]
    exact and_comm
  rw [← hcloses, ← hiff]
  constructor
  · rintro ⟨u, hu, hfatal⟩
    rwa [Option.some.inj (ht.symm.trans hu)]
  · exact fun hfatal => ⟨t, ht, hfatal⟩

/-- Whatever the scan closes for its clause about the client, the event loop would close too, and
with nothing left in the buffers, if and only if it comes with both buffers empty or before the
grace is over. -/
theorem scan_agrees_iff (s : Relay) (now : Time) (peekError : Bool) :
    (s.ScanReaps now peekError → s.EventRuleReaps now ∧ s.Drained) ↔
      (s.pc = .wait → s.clientGraceOver now = true → s.Drained) := by
  rw [scanReaps_iff, eventRuleReaps_iff]
  constructor
  · intro hagree hpc hover
    exact (hagree ⟨hpc, hover⟩).2
  · rintro hdrained ⟨hpc, hover⟩
    exact ⟨⟨hover, hdrained hpc hover⟩, hdrained hpc hover⟩

/-- The target has sent two bytes and the client its FIN, but it takes no bytes. -/
def unreadAnswerRun : List RelayEvent :=
  [.kernel .target (.arrive [1, 2]), .kernel .client .fin,
    .wakeup 10 false ⟨true, false, true, false, false⟩, .proceed, .proceed, .recv 0, .recv 9,
    .send .again, .proceed, .epollCtl true, .epollCtl true]

/-- Two seconds later the scan discards the two bytes; the event loop would have kept them. -/
theorem scan_discards_answer :
    ∃ s, run relayStep (handoffToWorker 5 6 (fun _ => 0) (fun _ => 0) 7) unreadAnswerRun = some s ∧
      s.conn.clientEof = true ∧ s.conn.t2c.pending = [1, 2] ∧ s.ScanReaps 12 false ∧
      ¬s.EventRuleReaps 12 := by
  refine ⟨_, rfl, rfl, by decide, scanReaps_iff.mpr ⟨rfl, by decide⟩, fun hreaps => ?_⟩
  exact absurd (eventRuleReaps_iff.mp hreaps).2 (by decide)

/-! ### A target that has sent its FIN -/

def Open (s : Relay) : Prop := s.fatalError = false ∧ s.pc ≠ .closed

instance (s : Relay) : Decidable s.Open := inferInstanceAs (Decidable (_ ∧ _))

/-- `recv` on the target returns 0 here. -/
def ReadsFin (s : Relay) : Prop :=
  s.pc = .readTarget ∧ s.conn.t2c.len = 0 ∧ s.target.rx = [] ∧ s.target.fin = true

instance (s : Relay) : Decidable s.ReadsFin := inferInstanceAs (Decidable (_ ∧ _))

def SocketError : RelayEvent → Prop
  | .wakeup _ _ ev => ev.epollerr = true ∨ ev.epollhup = true
  | .recvError => True
  | .send (.error _) => True
  | _ => False

instance : DecidablePred SocketError
  | .wakeup .. => inferInstanceAs (Decidable (_ ∨ _))
  | .recvError | .send (.error _) => .isTrue trivial
  | .send (.sent _) | .send .again | .scan .. | .proceed | .recv _ | .peek | .epollCtl _
  | .kernel .. => .isFalse id

def GivesUp (s : Relay) (e : RelayEvent) : Prop :=
  s.Open ∧ ∃ t, relayStep s e = some t ∧ ¬t.Open

end Relay

/-- The worker knows of the FIN of the target, or learns of it by this step. -/
def FinKnown (p : Relay × GraceLog) (e : RelayEvent) : Prop :=
  p.2.targetFin ≠ 0 ∨ p.1.noticesTarget e ≠ 0 ∨ (p.1.ReadsFin ∧ ∃ k, e = .recv k)

def GraceLeft (p : Relay × GraceLog) (now : Time) : Prop :=
  p.2.targetFin = 0 ∨ now < p.2.targetFin + connFwdGraceSec

/-- The step gives up a connection with an upload to be sent, although no socket has failed and the
grace for it is not over. -/
def DropsUpload (p : Relay × GraceLog) (e : RelayEvent) : Prop :=
  0 < p.1.conn.c2t.len ∧ FinKnown p e ∧ GraceLeft p (p.1.checkTime e) ∧ ¬Relay.SocketError e ∧
    p.1.GivesUp e

/-- The upload of a half-closed connection is not dropped, and the worker is woken to send it. -/
def KeepsUpload (p : Relay × GraceLog) (e : RelayEvent) : Prop :=
  ¬DropsUpload p e ∧
    (p.1.pc = .wait → p.1.ctlOk = true → 0 < p.1.conn.c2t.len →
      p.1.conn.targetEvents.epollout = true)

/-- While there is an upload to be sent and grace for it, the FIN is not what `recv` returns from
the target, and the scan does not find the connection idle or the grace of the client over. -/
def SparesUpload (p : Relay × GraceLog) (e : RelayEvent) : Prop :=
  p.1.Open → 0 < p.1.conn.c2t.len →
    match e with
    | .recv _ => GraceLeft p p.1.now → ¬p.1.ReadsFin
    | .scan now _ =>
        p.1.pc = .wait → FinKnown p e → GraceLeft p now →
          ¬idleTimeoutSec < now - p.1.conn.lastActive ∧ p.1.clientGraceOver now = false
    | _ => True

namespace Relay

variable {s t : Relay} {e : RelayEvent}

/-! ### What gives a connection up -/

/-- What is so at some places of the handler. -/
structure AtPlace (s : Relay) : Prop where
  clientFd : 0 ≤ s.conn.clientFd
  probe : s.pc = .probe → s.conn.c2t.len = 0
  collect : s.pc = .collect → s.fatalError = true

theorem AtPlace.of_pc (h : s.AtPlace) (hfd : t.conn.clientFd = s.conn.clientFd)
    (hprobe : t.pc ≠ .probe) (hcollect : t.pc ≠ .collect) : t.AtPlace :=
  ⟨hfd ▸ h.clientFd, fun hpc => absurd hpc hprobe, fun hpc => absurd hpc hcollect⟩

theorem AtPlace.handles (h : s.AtPlace) (ht : Handles s e t) : t.AtPlace := by
  have hmark : s.markTarget.conn.clientFd = s.conn.clientFd := by
    unfold markTarget
    split <;> rfl
  obtain ⟨hfatal, -, hc2t, -⟩ := s.markTarget_fields
  cases ht with
  | toClient next turn hpc hturn =>
      have hne : ∀ pc, pc = .probe ∨ pc = .collect → s.pc ≠ pc ∧ next ≠ pc := by
        rintro pc (rfl | rfl) <;> rcases hpc with ⟨hpc, -, rfl⟩ | ⟨hpc, rfl⟩ <;>
          exact ⟨by rw [hpc]; exact (by rintro ⟨⟩), (by rintro ⟨⟩)⟩
      exact h.of_pc (by rw [afterSend_conn]) (afterSend_pc_ne _ _ (hne _ (Or.inl rfl)))
        (afterSend_pc_ne _ _ (hne _ (Or.inr rfl)))
  | toTarget next turn hpc hturn =>
      have hne : ∀ pc, pc = .probe ∨ pc = .collect → s.pc ≠ pc ∧ next ≠ pc := by
        rintro pc (rfl | rfl) <;> rcases hpc with ⟨hpc, -, rfl⟩ | ⟨hpc, rfl⟩ <;>
          exact ⟨by rw [hpc]; exact (by rintro ⟨⟩), (by rintro ⟨⟩)⟩
      refine h.of_pc (by rw [afterSend_conn, accountUpload_conn]) (afterSend_pc_ne _ _ ?_)
        (afterSend_pc_ne _ _ ?_) <;> rw [accountUpload_pc]
      · exact hne _ (Or.inl rfl)
      · exact hne _ (Or.inr rfl)
  | markFatal hpc hf => exact ⟨hmark ▸ h.clientFd, (by rintro ⟨⟩), fun _ => hfatal.trans hf⟩
  | markGrace => exact ⟨hmark ▸ h.clientFd, (by rintro ⟨⟩), fun _ => rfl⟩
  | markProbe hpc hf hempty => exact ⟨hmark ▸ h.clientFd, fun _ => hc2t ▸ hempty.1, (by rintro ⟨⟩)⟩
  | markHalfClosed | markPending => exact h.of_pc hmark (by rintro ⟨⟩) (by rintro ⟨⟩)
  | probeEof => exact ⟨h.clientFd, (by rintro ⟨⟩), fun _ => rfl⟩
  | _ => exact h.of_pc rfl (by rintro ⟨⟩) (by rintro ⟨⟩)

theorem AtPlace.step (h : s.AtPlace) (ht : relayStep s e = some t) : t.AtPlace := by
  cases e with
  | wakeup now isTarget ev =>
      obtain ⟨-, rfl⟩ := wakeup_eq_some.mp ht
      refine ⟨h.clientFd, ?_, ?_⟩ <;> simp only [startHandler] <;> split
      · rintro ⟨⟩
      · rintro ⟨⟩
      · exact fun _ => ‹_›
      · rintro ⟨⟩
  | scan now peekError =>
      obtain ⟨hpc, hcases⟩ := scan_eq_some ht
      have hsame : (s.scanPeek now peekError).conn.clientFd = s.conn.clientFd ∧
          (s.scanPeek now peekError).pc = s.pc := by
        obtain ⟨since, heq⟩ := s.scanPeek_same now peekError
        rw [heq]
        exact ⟨rfl, rfl⟩
      have hfd := hsame.1
      have hwait := hsame.2.trans hpc
      rcases hcases with rfl | rfl
      · exact h.of_pc hfd (by rw [hwait]; rintro ⟨⟩) (by rw [hwait]; rintro ⟨⟩)
      · exact h.of_pc hfd (by rintro ⟨⟩) (by rintro ⟨⟩)
  | kernel side k =>
      cases side <;> obtain ⟨sock, -, rfl⟩ := Option.map_eq_some_iff.mp ht <;>
        exact ⟨h.clientFd, h.probe, h.collect⟩
  | _ => exact h.handles (handle_spec ht)

theorem trySendTurn_gives_up {fd : ℤ} {p : Pipe} {sock : StreamSocket} {r : Option SendResult}
    {turn : SendTurn} (hfd : 0 ≤ fd) (h : trySendTurn fd p sock r = some turn)
    (hfailed : turn.ret = some .failed) : ∃ n, r = some (.error n) := by
  cases r with
  | none =>
      simp only [trySendTurn, if_neg (Int.not_lt.mpr hfd)] at h
      split at h <;> cases h
      cases hfailed
  | some r =>
      simp only [trySendTurn, if_neg (Int.not_lt.mpr hfd)] at h
      split at h
      case isFalse => cases h
      case isTrue =>
        cases r with
        | error n => exact ⟨n, rfl⟩
        | again =>
            simp only at h
            split at h <;> cases h
            cases hfailed
        | sent k =>
            simp only at h
            repeat' split at h
            all_goals cases h <;> cases hfailed

theorem sendAnswer_error {n : ℕ} (h : sendAnswer e = some (some (.error n))) : SocketError e := by
  cases e with
  | send r =>
      cases h
      trivial
  | _ => cases h

theorem afterSend_open {ret : Option SendRet} {next : RelayPc} (h : s.Open) (hnext : next ≠ .closed)
    (hret : ret ≠ some .failed) : (s.afterSend ret next).Open := by
  unfold afterSend
  split
  · exact h
  · exact absurd rfl hret
  · exact ⟨h.1, hnext⟩

theorem sendToClient_gives_up {r : Option SendResult} {next : RelayPc} (hfd : 0 ≤ s.conn.clientFd)
    (hopen : s.Open) (hnext : next ≠ .closed) (h : s.sendToClient r next = some t)
    (hno : ¬t.Open) : ∃ n, r = some (.error n) := by
  obtain ⟨turn, hturn, rfl⟩ := Option.map_eq_some_iff.mp h
  refine trySendTurn_gives_up hfd hturn ?_
  by_contra hret
  exact hno (afterSend_open hopen hnext hret)

theorem sendToTarget_gives_up {r : Option SendResult} {next : RelayPc} (hfd : 0 ≤ s.conn.targetFd)
    (hopen : s.Open) (hnext : next ≠ .closed) (h : s.sendToTarget r next = some t)
    (hno : ¬t.Open) : ∃ n, r = some (.error n) := by
  obtain ⟨turn, hturn, rfl⟩ := Option.map_eq_some_iff.mp h
  refine trySendTurn_gives_up hfd hturn ?_
  by_contra hret
  refine hno (afterSend_open ?_ hnext hret)
  unfold accountUpload
  split <;> exact hopen

theorem readClient_gives_up (hopen : s.Open) (h : s.readClient e = some t) (hno : ¬t.Open) :
    SocketError e := by
  unfold readClient at h
  split at h
  case isTrue =>
    cases e with
    | recv k =>
        have hrecv := s.client.recv_spec (show 0 < bufferSize by decide) k
        simp only at h
        generalize s.client.recv bufferSize k = answer at h hrecv
        cases hrecv <;> cases h <;> exact absurd ⟨hopen.1, (by rintro ⟨⟩)⟩ hno
    | recvError => trivial
    | _ => cases h
  case isFalse =>
    cases e <;> cases h
    exact absurd ⟨hopen.1, (by rintro ⟨⟩)⟩ hno

theorem readTarget_gives_up (hpc : s.pc = .readTarget) (hopen : s.Open)
    (h : s.readTarget e = some t) (hno : ¬t.Open) :
    SocketError e ∨ s.ReadsFin ∧ ∃ k, e = .recv k := by
  unfold readTarget at h
  split at h
  case isTrue hguard =>
    cases e with
    | recv k =>
        have hrecv := s.target.recv_spec (show 0 < bufferSize by decide) k
        simp only at h
        generalize s.target.recv bufferSize k = answer at h hrecv
        cases hrecv with
        | data =>
            cases h
            exact absurd ⟨hopen.1, (by rintro ⟨⟩)⟩ hno
        | eof hrx hfin => exact Or.inr ⟨⟨hpc, hguard.2, hrx, hfin⟩, k, rfl⟩
        | again =>
            cases h
            exact absurd ⟨hopen.1, (by rintro ⟨⟩)⟩ hno
    | recvError => exact Or.inl trivial
    | _ => cases h
  case isFalse =>
    cases e <;> cases h
    exact absurd ⟨hopen.1, (by rintro ⟨⟩)⟩ hno

/-- With an upload to be sent, the handler gives a connection up only for an error and for the FIN
that it reads. -/
theorem handle_gives_up (hplace : s.AtPlace) (htarget : 0 ≤ s.conn.targetFd)
    (hlen : 0 < s.conn.c2t.len) (hopen : s.Open) (h : s.handle e = some t) (hno : ¬t.Open) :
    SocketError e ∨ s.ReadsFin ∧ ∃ k, e = .recv k := by
  have hclient := hplace.clientFd
  unfold handle at h
  split at h
  case h_1 | h_13 => cases h
  case h_2 =>
    obtain ⟨r, hr, h⟩ := Option.bind_eq_some_iff.mp h
    split_ifs at h
    · obtain ⟨n, rfl⟩ := sendToClient_gives_up hclient hopen (by decide) h hno
      exact Or.inl (sendAnswer_error hr)
    · cases h
      exact absurd ⟨hopen.1, (by rintro ⟨⟩)⟩ hno
  case h_3 =>
    obtain ⟨r, hr, h⟩ := Option.bind_eq_some_iff.mp h
    split_ifs at h
    · obtain ⟨n, rfl⟩ := sendToTarget_gives_up htarget hopen (by decide) h hno
      exact Or.inl (sendAnswer_error hr)
  case h_4 => exact Or.inl (readClient_gives_up hopen h hno)
  case h_5 =>
    obtain ⟨r, hr, h⟩ := Option.bind_eq_some_iff.mp h
    obtain ⟨n, rfl⟩ := sendToTarget_gives_up htarget hopen (by decide) h hno
    exact Or.inl (sendAnswer_error hr)
  case h_6 => exact readTarget_gives_up ‹_› hopen h hno
  case h_7 =>
    obtain ⟨r, hr, h⟩ := Option.bind_eq_some_iff.mp h
    obtain ⟨n, rfl⟩ := sendToClient_gives_up hclient hopen (by decide) h hno
    exact Or.inl (sendAnswer_error hr)
  case h_8 =>
    -- the rule at the end of the handler asks for empty buffers
    have hmark := s.markTarget_fields
    cases markEof_handles ‹_› h with
    | markFatal _ hfatal => exact absurd (hopen.1.symm.trans hfatal) (by rintro ⟨⟩)
    | markGrace _ _ hempty => exact absurd hempty.1 hlen.ne'
    | markHalfClosed | markProbe | markPending =>
        exact absurd ⟨hmark.1.trans hopen.1, (by rintro ⟨⟩)⟩ hno
    | _ => simp_all
  case h_9 => exact absurd (hplace.probe ‹_›) hlen.ne'
  case h_12 => exact absurd (hopen.1.symm.trans (hplace.collect ‹_›)) (by rintro ⟨⟩)
  case h_10 =>
    cases ctlClient_handles ‹_› h with
    | ctlClientSame | ctlClientMod | ctlClientFail => exact absurd ⟨hopen.1, (by rintro ⟨⟩)⟩ hno
    | _ => simp_all
  case h_11 =>
    cases ctlTarget_handles ‹_› h with
    | ctlTargetSame | ctlTargetMod | ctlTargetFail => exact absurd ⟨hopen.1, (by rintro ⟨⟩)⟩ hno
    | _ => simp_all

theorem ReadsFin.gives_up (h : s.ReadsFin) (hopen : s.Open) (k : ℕ) : s.GivesUp (.recv k) := by
  obtain ⟨hpc, hlen, hrx, hfin⟩ := h
  refine ⟨hopen, { s with
    target := { s.target with finRead := true }
    fatalError := true
    pc := .markEof }, ?_, fun ht => absurd ht.1 nofun⟩
  simp [relayStep, handle, hpc, readTarget, hopen.1, hlen, StreamSocket.recv, hrx, hfin]

theorem scan_gives_up_iff {now : Time} {peekError : Bool} (hopen : s.Open) (hpc : s.pc = .wait) :
    s.GivesUp (.scan now peekError) ↔
      idleTimeoutSec < now - s.conn.lastActive ∨ s.ClosesForGrace (.scan now peekError) := by
  obtain ⟨t, ht⟩ := exists_scan hpc now peekError
  have hfatal : t.fatalError = false := by
    have hsame : (s.scanPeek now peekError).fatalError = s.fatalError := by
      obtain ⟨since, heq⟩ := s.scanPeek_same now peekError
      rw [heq]
    rcases (scan_eq_some ht).2 with rfl | rfl <;> exact hsame.trans hopen.1
  rw [← scan_closed_iff ht]
  constructor
  · rintro ⟨-, u, hu, hno⟩
    obtain rfl := Option.some.inj (ht.symm.trans hu)
    by_contra hpc
    exact hno ⟨hfatal, hpc⟩
  · exact fun hclosed => ⟨hopen, t, ht, fun hto => hto.2 hclosed⟩

theorem wakeup_gives_up {now : Time} {isTarget : Bool} {ev : EpollEvents}
    (h : s.GivesUp (.wakeup now isTarget ev)) : SocketError (.wakeup now isTarget ev) := by
  obtain ⟨-, t, ht, hno⟩ := h
  obtain ⟨-, rfl⟩ := wakeup_eq_some.mp ht
  by_contra herr
  have hfatal : (ev.epollerr || ev.epollhup) = false := by
    simpa [SocketError] using herr
  refine hno ⟨hfatal, ?_⟩
  simp only [startHandler]
  split <;> rintro ⟨⟩

end Relay

/-- What the connection relies on. -/
structure UploadInv (s : Relay) (log : GraceLog) : Prop where
  clocks : Clocks s log
  place : s.AtPlace
  wake : s.WakeInv

namespace UploadInv

variable {s t : Relay} {log : GraceLog} {e : RelayEvent}

theorem init (clientFd targetFd : ℕ) (c2tBuf t2cBuf : ℕ → UInt8) (now : Time) :
    UploadInv (handoffToWorker clientFd targetFd c2tBuf t2cBuf now) .empty where
  clocks := .init clientFd targetFd c2tBuf t2cBuf now
  place := ⟨Int.natCast_nonneg clientFd, nofun, nofun⟩
  wake := handoffToWorker_wakeInv clientFd targetFd c2tBuf t2cBuf now

theorem step (h : UploadInv s log) (ht : relayStep s e = some t) :
    UploadInv t (recordGrace s e log) :=
  ⟨h.clocks.step ht, h.place.step ht, relayStep_wakeInv h.wake ht⟩

theorem closesForGrace_iff (h : UploadInv s log) {now : Time} (peekError : Bool)
    (hpc : s.pc = .wait) (hleft : GraceLeft (s, log) now) :
    s.ClosesForGrace (.scan now peekError) ↔ s.clientGraceOver now = true := by
  have htarget := mt (h.clocks.target_expired_iff now peekError).mp (not_not.mpr hleft)
  rw [Relay.ClosesForGrace, s.scanPeek_graceOver_iff, Relay.clientGraceOver, Bool.and_eq_true]
  exact ⟨fun h => h.2.resolve_right htarget, fun hover => ⟨hpc, Or.inl hover⟩⟩

theorem keeps_iff (h : UploadInv s log) (e : RelayEvent) :
    KeepsUpload (s, log) e ↔ SparesUpload (s, log) e := by
  have harmed : s.pc = .wait → s.ctlOk = true → 0 < s.conn.c2t.len →
      s.conn.targetEvents.epollout = true := fun hpc hok => (h.wake.target_armed hpc hok).1
  have hhandle : relayStep s e = s.handle e → DropsUpload (s, log) e →
      s.ReadsFin ∧ ∃ k, e = .recv k := by
    rintro heq ⟨hlen, -, -, herr, hopen, t, ht, hno⟩
    exact (Relay.handle_gives_up h.place h.clocks.targetFd hlen hopen (heq ▸ ht) hno).resolve_left
      herr
  rw [KeepsUpload, and_iff_left harmed]
  cases e with
  | recv k =>
      constructor
      · intro hkeeps hopen hlen hleft hreads
        exact hkeeps ⟨hlen, Or.inr (Or.inr ⟨hreads, k, rfl⟩), hleft, id, hreads.gives_up hopen k⟩
      · intro hspares hdrops
        exact hspares hdrops.2.2.2.2.1 hdrops.1 hdrops.2.2.1 (hhandle rfl hdrops).1
  | scan now peekError =>
      constructor
      · intro hkeeps hopen hlen hpc hknown hleft
        have hstays : ¬s.GivesUp (.scan now peekError) := fun hup =>
          hkeeps ⟨hlen, hknown, hleft, id, hup⟩
        rw [Relay.scan_gives_up_iff hopen hpc, h.closesForGrace_iff peekError hpc hleft] at hstays
        exact ⟨fun hidle => hstays (Or.inl hidle),
          Bool.eq_false_iff.mpr fun hover => hstays (Or.inr hover)⟩
      · rintro hspares ⟨hlen, hknown, hleft, -, hup⟩
        obtain ⟨hopen, t, ht, -⟩ := id hup
        have hpc := (Relay.scan_eq_some ht).1
        have hiff := h.closesForGrace_iff peekError hpc hleft
        obtain ⟨hidle, hover⟩ := hspares hopen hlen hpc hknown hleft
        rcases (Relay.scan_gives_up_iff hopen hpc).mp hup with hlong | hcloses
        · exact hidle hlong
        · exact absurd (hover.symm.trans (hiff.mp hcloses)) nofun
  | wakeup now isTarget ev =>
      refine iff_of_true (fun hdrops => ?_) fun _ _ => trivial
      exact hdrops.2.2.2.1 (Relay.wakeup_gives_up hdrops.2.2.2.2)
  | kernel side k =>
      refine iff_of_true ?_ fun _ _ => trivial
      rintro ⟨-, -, -, -, hopen, t, ht, hno⟩
      cases side <;> obtain ⟨sock, -, rfl⟩ := Option.map_eq_some_iff.mp ht <;> exact hno hopen
  | proceed | send | recvError | peek | epollCtl =>
      refine iff_of_true (fun hdrops => ?_) fun _ _ => trivial
      obtain ⟨-, k, hk⟩ := hhandle rfl hdrops
      cases hk

end UploadInv

/-- In every run the upload of a connection whose target has sent its FIN is kept, until it is sent,
a socket fails or the grace is over, if and only if no read of the target and no scan comes in the
way. -/
theorem upload_kept_iff (clientFd targetFd : ℕ) (c2tBuf t2cBuf : ℕ → UInt8) (now : Time)
    (es : List RelayEvent) :
    Meets (record relayStep recordGrace) KeepsUpload
        (handoffToWorker clientFd targetFd c2tBuf t2cBuf now, .empty) es ↔
      Meets (record relayStep recordGrace) SparesUpload
        (handoffToWorker clientFd targetFd c2tBuf t2cBuf now, .empty) es := by
  refine Meets.congr (P := fun p : Relay × GraceLog => UploadInv p.1 p.2) (fun p e q h hstep => ?_)
    (fun p e h => h.keeps_iff e) (UploadInv.init clientFd targetFd c2tBuf t2cBuf now) es
  obtain ⟨ht, hlog⟩ := record_eq_some.mp hstep
  exact hlog ▸ h.step ht

/-- The client has sent two bytes and the target its FIN; the target has room for one of them. -/
def pendingUploadRun : List RelayEvent :=
  [.kernel .client (.arrive [1, 2]), .kernel .target .fin, .kernel .target (.room 1),
    .wakeup 10 false ⟨true, false, false, false, false⟩, .proceed, .proceed, .recv 9,
    .send (.sent 0), .send .again]

/-- The worker reads the FIN and gives the connection up with a byte still to be sent. -/
theorem upload_dropped :
    ∃ s t log, run (record relayStep recordGrace)
        (handoffToWorker 5 6 (fun _ => 0) (fun _ => 0) 7, .empty) pendingUploadRun = some (s, log) ∧
      s.conn.c2t.pending = [2] ∧ ¬KeepsUpload (s, log) (.recv 0) ∧
      run relayStep s [.recv 0, .proceed, .proceed] = some t ∧ t.pc = .closed := by
  refine ⟨_, _, _, rfl, by decide, fun hkeeps => hkeeps.1 ?_, rfl, rfl⟩
  refine ⟨by decide, Or.inr (Or.inr ⟨⟨rfl, rfl, rfl, rfl⟩, 0, rfl⟩), Or.inl rfl, id, ⟨rfl, nofun⟩,
    _, rfl, fun ht => absurd ht.1 nofun⟩

end FiveGProxy
