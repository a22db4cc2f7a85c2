import FiveGProxy.Relay.Connection

/-!
# Wake-ups of the relay

When the handler of an event has ended, the masks must let the worker read whatever is left
unread and send whatever is left unsent (`Relay.Armed`). The first three parts hold in every run.
The fourth rests on `target_eof_since`, which disarms reading from the target: it holds when the
EPOLLRDHUP of the target is recorded only after its last byte was read, and not when the FIN
itself would then be left unread with nothing to send.
-/

namespace FiveGProxy

open Memory Steps

namespace Relay

/-- The worker is woken for everything that is left. -/
structure Armed (s : Relay) : Prop where
  target_out : 0 < s.conn.c2t.len → s.conn.targetEvents.epollout = true
  client_out : 0 < s.conn.t2c.len → s.conn.clientEvents.epollout = true
  client_in : s.conn.c2t.len = 0 → s.client.Unread → s.conn.clientEvents.epollin = true
  target_in : s.conn.t2c.len = 0 → s.target.Unread → s.conn.targetEvents.epollin = true

@[simp] theorem afterSend_conn (s : Relay) (ret : Option SendRet) (next : RelayPc) :
    (s.afterSend ret next).conn = s.conn := by
  unfold afterSend
  split <;> rfl

@[simp] theorem afterSend_client (s : Relay) (ret : Option SendRet) (next : RelayPc) :
    (s.afterSend ret next).client = s.client := by
  unfold afterSend
  split <;> rfl

@[simp] theorem afterSend_target (s : Relay) (ret : Option SendRet) (next : RelayPc) :
    (s.afterSend ret next).target = s.target := by
  unfold afterSend
  split <;> rfl

theorem afterSend_pc_ne {s : Relay} (ret : Option SendRet) (next : RelayPc) {pc : RelayPc}
    (h : s.pc ≠ pc ∧ next ≠ pc) : (s.afterSend ret next).pc ≠ pc := by
  unfold afterSend
  split
  · exact h.1
  · exact h.2
  · exact h.2

@[simp] theorem accountUpload_conn (s : Relay) (ret : Option SendRet) :
    (s.accountUpload ret).conn = s.conn := by
  unfold accountUpload
  split <;> rfl

@[simp] theorem accountUpload_client (s : Relay) (ret : Option SendRet) :
    (s.accountUpload ret).client = s.client := by
  unfold accountUpload
  split <;> rfl

@[simp] theorem accountUpload_target (s : Relay) (ret : Option SendRet) :
    (s.accountUpload ret).target = s.target := by
  unfold accountUpload
  split <;> rfl

@[simp] theorem accountUpload_pc (s : Relay) (ret : Option SendRet) :
    (s.accountUpload ret).pc = s.pc := by
  unfold accountUpload
  split <;> rfl

theorem markTarget_client (s : Relay) :
    s.markTarget.conn.closed = s.conn.closed ∧
      s.markTarget.conn.clientEof = s.conn.clientEof ∧ s.markTarget.client = s.client := by
  unfold markTarget
  split <;> exact ⟨rfl, rfl, rfl⟩

theorem Handles.pc_ne_closed {s t : Relay} {e : RelayEvent} (ht : Handles s e t) :
    s.pc ≠ .closed := by
  cases ht with
  | toClient next turn hpc hturn =>
      rcases hpc with ⟨hpc, -⟩ | ⟨hpc, -⟩ <;> rw [hpc] <;> rintro ⟨⟩
  | toTarget next turn hpc hturn =>
      rcases hpc with ⟨hpc, -⟩ | ⟨hpc, -⟩ <;> rw [hpc] <;> rintro ⟨⟩
  | _ hpc => rw [hpc]; rintro ⟨⟩

/-- What does not depend on `target_eof_since`. -/
structure WakeInv (s : Relay) : Prop where
  open_of_pc : s.pc ≠ .closed → s.conn.closed = false
  client_eof : s.conn.clientEof = true →
    s.client.rx = [] ∧ s.client.fin = true ∧ s.client.finRead = true
  client_armed : s.pc = .ctlTarget ∨ s.pc = .wait → s.ctlOk = true →
    (0 < s.conn.t2c.len → s.conn.clientEvents.epollout = true) ∧
    (s.conn.c2t.len = 0 → s.conn.clientEof = false → s.conn.clientEvents.epollin = true)
  target_armed : s.pc = .wait → s.ctlOk = true →
    (0 < s.conn.c2t.len → s.conn.targetEvents.epollout = true) ∧
    (s.conn.t2c.len = 0 → s.conn.targetEofSince = 0 → s.conn.targetEvents.epollin = true)

/-- A step that neither ends at the masks nor reads from the client. -/
theorem WakeInv.of_pc {s t : Relay} (h : WakeInv s) (hpc : s.pc ≠ .closed)
    (hclosed : t.conn.closed = s.conn.closed) (heof : t.conn.clientEof = s.conn.clientEof)
    (hrx : t.client.rx = s.client.rx) (hfin : t.client.fin = s.client.fin)
    (hread : t.client.finRead = s.client.finRead) (hctl : t.pc ≠ .ctlTarget)
    (hwait : t.pc ≠ .wait) : WakeInv t where
  open_of_pc := fun _ => hclosed.trans (h.open_of_pc hpc)
  client_eof := by
    rw [heof, hrx, hfin, hread]
    exact h.client_eof
  client_armed := fun ht => (ht.elim hctl hwait).elim
  target_armed := fun ht => (hwait ht).elim

theorem interest_of_open {c : FullConn} (h : c.closed = false) :
    (0 < c.t2c.len → c.interest.1.epollout = true) ∧
    (c.c2t.len = 0 → c.clientEof = false → c.interest.1.epollin = true) ∧
    (0 < c.c2t.len → c.interest.2.epollout = true) ∧
    (c.t2c.len = 0 → c.targetEofSince = 0 → c.interest.2.epollin = true) := by
  refine ⟨fun hlen => ?_, fun hlen heof => ?_, fun hlen => ?_, fun hlen heof => ?_⟩ <;>
    simp_all [FullConn.interest, connForwardInterest, mapFwdToEpoll]

theorem Handles.wakeInv {s t : Relay} {e : RelayEvent} (h : WakeInv s) (ht : Handles s e t) :
    WakeInv t := by
  have hopen := ht.pc_ne_closed
  have hint := interest_of_open (h.open_of_pc hopen)
  cases ht with
  | toClient next turn hpc hturn =>
      obtain ⟨hrx, hfin, hread⟩ := hturn.sock_eq
      have hne : ∀ pc, pc = .ctlTarget ∨ pc = .wait → s.pc ≠ pc ∧ next ≠ pc := by
        rintro pc (rfl | rfl) <;> rcases hpc with ⟨hpc, -, rfl⟩ | ⟨hpc, rfl⟩ <;>
          exact ⟨by rw [hpc]; exact (by rintro ⟨⟩), (by rintro ⟨⟩)⟩
      refine h.of_pc hopen ?_ ?_ ?_ ?_ ?_ (afterSend_pc_ne _ _ ?_) (afterSend_pc_ne _ _ ?_)
      · rw [afterSend_conn]
      · rw [afterSend_conn]
      · rw [afterSend_client, hrx]
      · rw [afterSend_client, hfin]
      · rw [afterSend_client, hread]
      · exact hne _ (Or.inl rfl)
      · exact hne _ (Or.inr rfl)
  | toTarget next turn hpc hturn =>
      have hne : ∀ pc, pc = .ctlTarget ∨ pc = .wait → s.pc ≠ pc ∧ next ≠ pc := by
        rintro pc (rfl | rfl) <;> rcases hpc with ⟨hpc, -, rfl⟩ | ⟨hpc, rfl⟩ <;>
          exact ⟨by rw [hpc]; exact (by rintro ⟨⟩), (by rintro ⟨⟩)⟩
      refine h.of_pc hopen ?_ ?_ ?_ ?_ ?_ (afterSend_pc_ne _ _ ?_) (afterSend_pc_ne _ _ ?_)
      · rw [afterSend_conn, accountUpload_conn]
      · rw [afterSend_conn, accountUpload_conn]
      · rw [afterSend_client, accountUpload_client]
      · rw [afterSend_client, accountUpload_client]
      · rw [afterSend_client, accountUpload_client]
      · rw [accountUpload_pc]
        exact hne _ (Or.inl rfl)
      · rw [accountUpload_pc]
        exact hne _ (Or.inr rfl)
  | readClientData hpc hguard b bs rest hrx hle =>
      exact ⟨fun _ => h.open_of_pc hopen, fun heof => absurd heof (by simp [hguard.2.2]), nofun,
        (by rintro ⟨⟩)⟩
  | readClientEof hpc hguard hrx hfin =>
      exact ⟨fun _ => h.open_of_pc hopen, fun _ => ⟨hrx, hfin, rfl⟩, nofun, (by rintro ⟨⟩)⟩
  | markFatal | markGrace | markHalfClosed | markProbe | markPending =>
      obtain ⟨hclosed, heof, hclient⟩ := s.markTarget_client
      exact h.of_pc hopen hclosed heof (congrArg _ hclient) (congrArg _ hclient)
        (congrArg _ hclient) (by rintro ⟨⟩) (by rintro ⟨⟩)
  | ctlClientSame hpc hsame =>
      exact ⟨fun _ => h.open_of_pc hopen, h.client_eof,
        fun _ _ => by rw [hsame]; exact ⟨hint.1, hint.2.1⟩, (by rintro ⟨⟩)⟩
  | ctlClientMod hpc =>
      exact ⟨fun _ => h.open_of_pc hopen, h.client_eof, fun _ _ => ⟨hint.1, hint.2.1⟩,
        (by rintro ⟨⟩)⟩
  | ctlClientFail hpc =>
      exact ⟨fun _ => h.open_of_pc hopen, h.client_eof, (by rintro _ ⟨⟩), (by rintro ⟨⟩)⟩
  | ctlTargetSame hpc hsame =>
      exact ⟨fun _ => h.open_of_pc hopen, h.client_eof, fun _ => h.client_armed (Or.inl hpc),
        fun _ _ => by rw [hsame]; exact hint.2.2⟩
  | ctlTargetMod hpc =>
      exact ⟨fun _ => h.open_of_pc hopen, h.client_eof, fun _ => h.client_armed (Or.inl hpc),
        fun _ _ => hint.2.2⟩
  | ctlTargetFail hpc =>
      exact ⟨fun _ => h.open_of_pc hopen, h.client_eof, (by rintro _ ⟨⟩), (by rintro _ ⟨⟩)⟩
  | collect hpc => exact ⟨fun hne => (hne rfl).elim, h.client_eof, nofun, (by rintro ⟨⟩)⟩
  | _ => exact h.of_pc hopen rfl rfl rfl rfl rfl (by rintro ⟨⟩) (by rintro ⟨⟩)

/-- The step does not disarm the target too early. EPOLLRDHUP is recorded with the last byte read,
and with data pending for the client or in a handler that goes on to close the connection;
`MSG_PEEK` does not fail on a target whose EPOLLRDHUP is recorded. -/
def RecordsEofSafely (s : Relay) (e : RelayEvent) : Prop :=
  (s.pc = .markEof → s.marksTarget = true → s.now ≠ 0 →
    0 < s.conn.t2c.len ∧ s.target.rx = [] ∨
    s.conn.t2c.len = 0 ∧ s.conn.c2t.len = 0 ∧
      (if s.conn.clientEof then
        connForwardGraceExpired s.now s.conn.eofSince connFwdGraceSec = true
      else s.target.rx = [])) ∧
  (s.pc = .probe → e = .recvError → s.conn.targetEofSince = 0)

instance (s : Relay) (e : RelayEvent) : Decidable (s.RecordsEofSafely e) :=
  inferInstanceAs (Decidable (_ ∧ _))

/-- The places of the handler between the flush of the client and the next read of the target. -/
def Rereads (pc : RelayPc) : Prop :=
  pc = .flushTarget ∨ pc = .readClient ∨ pc = .sendTarget ∨ pc = .readTarget

/-- A recorded EPOLLRDHUP means that everything was read and that only data for the client keeps
the connection open. -/
structure EofInv (s : Relay) : Prop where
  rdhup_fin : s.isTarget = true → s.ev.epollrdhup = true → s.target.fin = true
  not_fatal : s.pc = .probe ∨ s.pc = .ctlClient ∨ s.pc = .ctlTarget ∨ s.pc = .wait →
    s.fatalError = false
  fatal : s.pc = .collect → s.fatalError = true
  recorded : s.conn.targetEofSince ≠ 0 → s.fatalError = false → s.pc ≠ .closed →
    s.target.rx = [] ∧ s.target.fin = true ∧ s.pc ≠ .sendClient ∧
      (0 < s.conn.t2c.len ∨ Rereads s.pc ∨ s.pc = .probe)

/-- A step that goes on to a place before the next read of the target. -/
theorem EofInv.reread {s t : Relay} (h : EofInv s) (hopen : s.pc ≠ .closed)
    (htarget : t.isTarget = s.isTarget) (hev : t.ev = s.ev) (hrx : t.target.rx = s.target.rx)
    (hfin : t.target.fin = s.target.fin) (hsince : t.conn.targetEofSince = s.conn.targetEofSince)
    (hfatal : t.fatalError = false → s.fatalError = false) (hpc : Rereads t.pc) : EofInv t where
  rdhup_fin := by
    rw [htarget, hev, hfin]
    exact h.rdhup_fin
  not_fatal := by
    rcases hpc with hpc | hpc | hpc | hpc <;> rw [hpc] <;> exact nofun
  fatal := by
    rcases hpc with hpc | hpc | hpc | hpc <;> rw [hpc] <;> exact nofun
  recorded := by
    rw [hsince, hrx, hfin]
    intro hne hf _
    obtain ⟨h1, h2, -, -⟩ := h.recorded hne (hfatal hf) hopen
    refine ⟨h1, h2, ?_, Or.inr (Or.inl hpc)⟩
    rcases hpc with hpc | hpc | hpc | hpc <;> rw [hpc] <;> exact nofun

/-- Past the next read of the target, data is pending for the client. -/
theorem EofInv.pending {s : Relay} (h : EofInv s) (hopen : s.pc ≠ .closed)
    (hreread : ¬ Rereads s.pc) (hprobe : s.pc ≠ .probe) (hne : s.conn.targetEofSince ≠ 0)
    (hf : s.fatalError = false) :
    s.target.rx = [] ∧ s.target.fin = true ∧ 0 < s.conn.t2c.len := by
  obtain ⟨hrx, hfin, -, hlen | hpc | hpc⟩ := h.recorded hne hf hopen
  · exact ⟨hrx, hfin, hlen⟩
  · exact (hreread hpc).elim
  · exact (hprobe hpc).elim

/-- What is known when EPOLLRDHUP has been recorded, in this event or before. -/
theorem EofInv.markTarget {s : Relay} (h : EofInv s) {e : RelayEvent}
    (hc : s.RecordsEofSafely e) (hpc : s.pc = .markEof) (hf : s.fatalError = false)
    (hne : s.markTarget.conn.targetEofSince ≠ 0) :
    s.target.fin = true ∧ (0 < s.conn.t2c.len ∧ s.target.rx = [] ∨
      s.conn.t2c.len = 0 ∧ s.conn.c2t.len = 0 ∧
        (if s.conn.clientEof then
          connForwardGraceExpired s.now s.conn.eofSince connFwdGraceSec = true
        else s.target.rx = [])) := by
  by_cases hmark : s.marksTarget = true
  · rw [Relay.markTarget, if_pos hmark] at hne
    refine ⟨?_, hc.1 hpc hmark hne⟩
    simp only [marksTarget, Bool.and_eq_true] at hmark
    exact h.rdhup_fin hmark.1.1.1.2 hmark.1.2
  · rw [Relay.markTarget, if_neg hmark] at hne
    obtain ⟨hrx, hfin, hlen⟩ := h.pending (by rw [hpc]; exact nofun)
      (by rw [hpc]; simp [Rereads]) (by rw [hpc]; exact nofun) hne hf
    exact ⟨hfin, Or.inl ⟨hlen, hrx⟩⟩

theorem markTarget_target (s : Relay) :
    s.markTarget.isTarget = s.isTarget ∧ s.markTarget.ev = s.ev ∧
      s.markTarget.target = s.target := by
  unfold markTarget
  split <;> exact ⟨rfl, rfl, rfl⟩

/-- The end of the record of EPOLLRDHUP, at whichever place the handler goes on. -/
theorem markEof_eofInv {s t : Relay} (h : EofInv s) {pc : RelayPc} {fatal : Bool}
    (ht : t = { s.markTarget with fatalError := fatal, pc := pc })
    (hfatal : pc = .collect ∧ fatal = true ∨
      (pc = .ctlClient ∨ pc = .probe) ∧ fatal = false ∧
        (s.markTarget.conn.targetEofSince ≠ 0 → s.target.rx = [] ∧ s.target.fin = true ∧
          (0 < s.conn.t2c.len ∨ pc = .probe))) : EofInv t := by
  obtain ⟨htarget, hev, hsock⟩ := s.markTarget_target
  obtain ⟨-, -, -, ht2c, -, -⟩ := s.markTarget_fields
  subst ht
  refine ⟨?_, ?_, ?_, ?_⟩
  · show s.markTarget.isTarget = true → s.markTarget.ev.epollrdhup = true →
      s.markTarget.target.fin = true
    rw [htarget, hev, hsock]
    exact h.rdhup_fin
  · rcases hfatal with ⟨rfl, -⟩ | ⟨-, hf, -⟩
    · exact nofun
    · exact fun _ => hf
  · rcases hfatal with ⟨-, hf⟩ | ⟨rfl | rfl, -, -⟩
    · exact fun _ => hf
    · exact nofun
    · exact nofun
  · intro hne hf hcl
    rcases hfatal with ⟨-, rfl⟩ | ⟨hpc, -, hrec⟩
    · cases hf
    · obtain ⟨hrx, hfin, hlen⟩ := hrec hne
      refine ⟨by rw [← hrx, ← hsock], by rw [← hfin, ← hsock], ?_, ?_⟩
      · rcases hpc with rfl | rfl <;> exact nofun
      · rcases hlen with hlen | hlen
        · exact Or.inl (by rw [← ht2c] at hlen; exact hlen)
        · exact Or.inr (Or.inr hlen)

theorem ctl_eofInv {s t : Relay} (h : EofInv s) (hpc : s.pc = .ctlClient ∨ s.pc = .ctlTarget)
    (htarget : t.isTarget = s.isTarget) (hev : t.ev = s.ev) (hsock : t.target = s.target)
    (hsince : t.conn.targetEofSince = s.conn.targetEofSince) (ht2c : t.conn.t2c = s.conn.t2c)
    (hfatal : t.fatalError = s.fatalError) (ht : t.pc = .ctlTarget ∨ t.pc = .wait) :
    EofInv t := by
  have hf : s.fatalError = false := h.not_fatal (by rcases hpc with hpc | hpc <;> simp [hpc])
  refine ⟨by rw [htarget, hev, hsock]; exact h.rdhup_fin, fun _ => hfatal.trans hf, ?_, ?_⟩
  · rcases ht with ht | ht <;> rw [ht] <;> exact nofun
  · rw [hsince, hsock, ht2c]
    intro hne _ _
    obtain ⟨hrx, hfin, hlen⟩ := h.pending (by rcases hpc with hpc | hpc <;> rw [hpc] <;> exact nofun)
      (by rcases hpc with hpc | hpc <;> simp [hpc, Rereads])
      (by rcases hpc with hpc | hpc <;> rw [hpc] <;> exact nofun) hne hf
    exact ⟨hrx, hfin, by rcases ht with ht | ht <;> rw [ht] <;> exact nofun, Or.inl hlen⟩

theorem toClient_eofInv {s : Relay} (h : EofInv s) (next : RelayPc) (turn : SendTurn)
    (hpc : s.pc = .flushClient ∧ 0 < s.conn.t2c.len ∧ next = .flushTarget ∨
      s.pc = .sendClient ∧ next = .markEof)
    (hturn : TrySends s.conn.clientFd s.conn.t2c s.client turn) :
    EofInv (({ s with
      conn := { s.conn with t2c := turn.pipe }
      client := turn.sock
      toClient := s.toClient ++ turn.accepted } : Relay).afterSend turn.ret next) := by
  rcases hpc with ⟨hpc, hlen, rfl⟩ | ⟨hpc, rfl⟩
  · have hopen : s.pc ≠ .closed := by rw [hpc]; rintro ⟨⟩
    cases hturn with
    | noFd hfd | failed => exact h.reread hopen rfl rfl rfl rfl rfl (by rintro ⟨⟩) (Or.inl rfl)
    | blocked | empty | rest => exact h.reread hopen rfl rfl rfl rfl rfl id (Or.inl rfl)
    | part n hn hlt =>
        refine ⟨h.rdhup_fin, h.not_fatal, h.fatal, fun hne hf hcl => ?_⟩
        obtain ⟨hrx, hfin, hsend, -⟩ := h.recorded hne hf hcl
        exact ⟨hrx, hfin, hsend, Or.inl (Nat.zero_lt_of_lt hlt)⟩
  · have hopen : s.pc ≠ .closed := by rw [hpc]; rintro ⟨⟩
    have habsurd : s.conn.targetEofSince ≠ 0 → s.fatalError = false → False :=
      fun hne hf => (h.recorded hne hf hopen).2.2.1 hpc
    cases hturn with
    | noFd hfd | failed => exact ⟨h.rdhup_fin, nofun, (by rintro ⟨⟩), (by rintro _ ⟨⟩)⟩
    | blocked | empty | rest =>
        exact ⟨h.rdhup_fin, nofun, (by rintro ⟨⟩), fun hne hf _ => (habsurd hne hf).elim⟩
    | part n hn hlt =>
        exact ⟨h.rdhup_fin, h.not_fatal, h.fatal, fun hne hf _ => (habsurd hne hf).elim⟩

theorem toTarget_eofInv {s : Relay} (h : EofInv s) (next : RelayPc) (turn : SendTurn)
    (hpc : s.pc = .flushTarget ∧ 0 < s.conn.c2t.len ∧ next = .readClient ∨
      s.pc = .sendTarget ∧ next = .readTarget)
    (hturn : TrySends s.conn.targetFd s.conn.c2t s.target turn) :
    EofInv ((({ s with
      conn := { s.conn with c2t := turn.pipe }
      target := turn.sock
      sent := s.sent + turn.accepted.length
      toTarget := s.toTarget ++ turn.accepted } : Relay).accountUpload turn.ret).afterSend
        turn.ret next) := by
  have hopen : s.pc ≠ .closed := by
    rcases hpc with ⟨hpc, -⟩ | ⟨hpc, -⟩ <;> rw [hpc] <;> exact nofun
  have hs : Rereads s.pc := by
    rcases hpc with ⟨hpc, -⟩ | ⟨hpc, -⟩ <;> rw [hpc]
    · exact Or.inl rfl
    · exact Or.inr (Or.inr (Or.inl rfl))
  have hnext : Rereads next := by
    rcases hpc with ⟨-, -, rfl⟩ | ⟨-, rfl⟩
    · exact Or.inr (Or.inl rfl)
    · exact Or.inr (Or.inr (Or.inr rfl))
  cases hturn with
  | noFd hfd | failed => exact h.reread hopen rfl rfl rfl rfl rfl nofun hnext
  | blocked | empty | rest => exact h.reread hopen rfl rfl rfl rfl rfl id hnext
  | part n hn hlt => exact h.reread hopen rfl rfl rfl rfl rfl id hs

theorem Handles.eofInv {s t : Relay} {e : RelayEvent} (h : EofInv s) (hc : s.RecordsEofSafely e)
    (ht : Handles s e t) : EofInv t := by
  have hopen := ht.pc_ne_closed
  cases ht with
  | skipClient hpc hlen => exact h.reread hopen rfl rfl rfl rfl rfl id (Or.inl rfl)
  | toClient next turn hpc hturn => exact toClient_eofInv h next turn hpc hturn
  | skipTarget hpc hlen => exact h.reread hopen rfl rfl rfl rfl rfl id (Or.inr (Or.inl rfl))
  | toTarget next turn hpc hturn => exact toTarget_eofInv h next turn hpc hturn
  | readClientData hpc hguard b bs rest hrx hle =>
      exact h.reread hopen rfl rfl rfl rfl rfl id (Or.inr (Or.inr (Or.inl rfl)))
  | skipReadClient | readClientEof | readClientAgain =>
      exact h.reread hopen rfl rfl rfl rfl rfl id (Or.inr (Or.inr (Or.inr rfl)))
  | readClientError hpc =>
      exact h.reread hopen rfl rfl rfl rfl rfl (by rintro ⟨⟩) (Or.inr (Or.inr (Or.inr rfl)))
  | skipReadTarget hpc hskip =>
      refine ⟨h.rdhup_fin, nofun, (by rintro ⟨⟩), fun hne hf _ => ?_⟩
      obtain ⟨hrx, hfin, -, -⟩ := h.recorded hne hf hopen
      have hlen : 0 < s.conn.t2c.len :=
        Nat.pos_of_ne_zero fun hzero => hskip ⟨hf, hzero⟩
      exact ⟨hrx, hfin, (by rintro ⟨⟩), Or.inl hlen⟩
  | readTargetData hpc hlen b bs rest hrx hle =>
      refine ⟨h.rdhup_fin, nofun, (by rintro ⟨⟩), fun hne hf _ => ?_⟩
      have hempty := (h.recorded hne hf hopen).1
      rw [hrx] at hempty
      cases hempty
  | readTargetAgain hpc hrx hfin =>
      refine ⟨h.rdhup_fin, nofun, (by rintro ⟨⟩), fun hne hf _ => ?_⟩
      have htrue := (h.recorded hne hf hopen).2.1
      rw [hfin] at htrue
      cases htrue
  | readTargetEof hpc => exact ⟨h.rdhup_fin, nofun, (by rintro ⟨⟩), (by rintro _ ⟨⟩)⟩
  | readTargetError hpc => exact ⟨h.rdhup_fin, nofun, (by rintro ⟨⟩), (by rintro _ ⟨⟩)⟩
  | markFatal hpc hfatal =>
      have hsame : s.markTarget.fatalError = true := s.markTarget_fields.1.trans hfatal
      exact markEof_eofInv h rfl (Or.inl ⟨rfl, hsame⟩)
  | markGrace hpc hfatal hempty heof hgrace => exact markEof_eofInv h rfl (Or.inl ⟨rfl, rfl⟩)
  | markHalfClosed hpc hfatal hempty heof hgrace =>
      have hsame : s.markTarget.fatalError = false := s.markTarget_fields.1.trans hfatal
      refine markEof_eofInv h rfl (Or.inr ⟨Or.inl rfl, hsame, fun hne => ?_⟩)
      obtain ⟨-, ⟨hlen, -⟩ | ⟨-, -, hrec⟩⟩ := h.markTarget hc hpc hfatal hne
      · omega
      · rw [if_pos heof, hgrace] at hrec
        cases hrec
  | markProbe hpc hfatal hempty heof =>
      have hsame : s.markTarget.fatalError = false := s.markTarget_fields.1.trans hfatal
      refine markEof_eofInv h rfl (Or.inr ⟨Or.inr rfl, hsame, fun hne => ?_⟩)
      obtain ⟨hfin, ⟨hlen, -⟩ | ⟨-, -, hrec⟩⟩ := h.markTarget hc hpc hfatal hne
      · omega
      · rw [heof] at hrec
        exact ⟨hrec, hfin, Or.inr rfl⟩
  | markPending hpc hfatal hpending =>
      have hsame : s.markTarget.fatalError = false := s.markTarget_fields.1.trans hfatal
      refine markEof_eofInv h rfl (Or.inr ⟨Or.inl rfl, hsame, fun hne => ?_⟩)
      obtain ⟨hfin, ⟨hlen, hrx⟩ | ⟨ht2c, hc2t, -⟩⟩ := h.markTarget hc hpc hfatal hne
      · exact ⟨hrx, hfin, Or.inl hlen⟩
      · exact (hpending ⟨hc2t, ht2c⟩).elim
  | probeEof hpc => exact ⟨h.rdhup_fin, nofun, fun _ => rfl, (by rintro _ ⟨⟩)⟩
  | probeOpen hpc hpeek =>
      refine ⟨h.rdhup_fin, fun _ => h.not_fatal (Or.inl hpc), (by rintro ⟨⟩), fun hne hf _ => ?_⟩
      obtain ⟨hrx, hfin, -⟩ := h.recorded hne hf hopen
      exact (hpeek (s.target.peek_eq_eof_iff.mpr ⟨hrx, hfin⟩)).elim
  | probeError hpc he =>
      exact ⟨h.rdhup_fin, fun _ => h.not_fatal (Or.inl hpc), (by rintro ⟨⟩),
        fun hne _ _ => (hne (hc.2 hpc he)).elim⟩
  | ctlClientSame hpc | ctlClientMod hpc | ctlClientFail hpc =>
      exact ctl_eofInv h (Or.inl hpc) rfl rfl rfl rfl rfl rfl (Or.inl rfl)
  | ctlTargetSame hpc | ctlTargetMod hpc | ctlTargetFail hpc =>
      exact ctl_eofInv h (Or.inr hpc) rfl rfl rfl rfl rfl rfl (Or.inr rfl)
  | collect hpc => exact ⟨h.rdhup_fin, nofun, (by rintro ⟨⟩), fun _ _ hne => (hne rfl).elim⟩

theorem kernelStep_eq_some {sock sock' : StreamSocket} {e : KernelEvent}
    (h : sock.kernelStep e = some sock') (hfin : sock.fin = true) :
    sock'.rx = sock.rx ∧ sock'.fin = true ∧ sock'.finRead = sock.finRead := by
  cases e with
  | arrive bytes => simp [StreamSocket.kernelStep, hfin] at h
  | fin =>
      cases h
      exact ⟨rfl, rfl, rfl⟩
  | room n =>
      cases h
      exact ⟨rfl, hfin, rfl⟩

theorem kernel_client_wakeInv {s : Relay} (h : WakeInv s) {sock : StreamSocket} {e : KernelEvent}
    (hsock : s.client.kernelStep e = some sock) : WakeInv { s with client := sock } where
  open_of_pc := h.open_of_pc
  client_eof := fun heof => by
    obtain ⟨hrx, hfin, hread⟩ := h.client_eof heof
    obtain ⟨hrx', hfin', hread'⟩ := kernelStep_eq_some hsock hfin
    exact ⟨hrx'.trans hrx, hfin', hread'.trans hread⟩
  client_armed := h.client_armed
  target_armed := h.target_armed

theorem kernel_target_eofInv {s : Relay} (h : EofInv s) {sock : StreamSocket} {e : KernelEvent}
    (hsock : s.target.kernelStep e = some sock) : EofInv { s with target := sock } where
  rdhup_fin := fun htarget hev => (kernelStep_eq_some hsock (h.rdhup_fin htarget hev)).2.1
  not_fatal := h.not_fatal
  fatal := h.fatal
  recorded := fun hne hf hcl => by
    obtain ⟨hrx, hfin, hpc⟩ := h.recorded hne hf hcl
    obtain ⟨hrx', hfin', -⟩ := kernelStep_eq_some hsock hfin
    exact ⟨hrx'.trans hrx, hfin', hpc⟩

theorem startHandler_wakeInv {s : Relay} (h : WakeInv s) (hpc : s.pc = .wait) (now : Time)
    (isTarget : Bool) (ev : EpollEvents) : WakeInv (s.startHandler now isTarget ev) := by
  refine h.of_pc (by rw [hpc]; exact nofun) rfl rfl rfl rfl rfl ?_ ?_ <;>
    simp only [startHandler] <;> split <;> exact nofun

theorem startHandler_eofInv {s : Relay} (h : EofInv s) (hpc : s.pc = .wait) (now : Time)
    {isTarget : Bool} {ev : EpollEvents}
    (hev : ev.epollrdhup → (if isTarget then s.target else s.client).fin) :
    EofInv (s.startHandler now isTarget ev) := by
  have hopen : s.pc ≠ .closed := by rw [hpc]; exact nofun
  refine ⟨fun htarget hrdhup => ?_, ?_, ?_, ?_⟩
  · have hfin := hev hrdhup
    have hside : isTarget = true := htarget
    rw [if_pos hside] at hfin
    exact hfin
  · simp only [startHandler]
    split <;> exact nofun
  · simp only [startHandler]
    split
    · exact fun _ => ‹_›
    · exact nofun
  · simp only [startHandler]
    intro hne hf _
    obtain ⟨hrx, hfin, hlen⟩ := h.pending hopen (by rw [hpc]; simp [Rereads])
      (by rw [hpc]; exact nofun) hne (h.not_fatal (by simp [hpc]))
    rw [if_neg (by rw [hf]; exact nofun)]
    exact ⟨hrx, hfin, nofun, Or.inl hlen⟩

theorem scanPeek_wakeInv {s : Relay} (h : WakeInv s) (now : Time) (peekError : Bool) :
    WakeInv (s.scanPeek now peekError) := by
  unfold scanPeek
  split
  · rename_i hmark
    exact ⟨h.open_of_pc, h.client_eof, h.client_armed, fun hpc hok =>
      ⟨(h.target_armed hpc hok).1, fun hlen => (Nat.ne_of_gt hmark.2.1 hlen).elim⟩⟩
  · exact h

theorem scanPeek_eofInv {s : Relay} (h : EofInv s) (hpc : s.pc = .wait) (now : Time)
    (peekError : Bool) : EofInv (s.scanPeek now peekError) := by
  unfold scanPeek
  split
  · rename_i hmark
    obtain ⟨hrx, hfin⟩ := s.target.peek_eq_eof_iff.mp hmark.2.2.2.2
    exact ⟨h.rdhup_fin, h.not_fatal, h.fatal,
      fun _ _ _ => ⟨hrx, hfin, by rw [hpc]; exact nofun, Or.inl hmark.2.1⟩⟩
  · exact h

end Relay

theorem relayStep_wakeInv {s t : Relay} {e : RelayEvent} (h : s.WakeInv)
    (ht : relayStep s e = some t) : t.WakeInv := by
  cases e with
  | wakeup now isTarget ev =>
      obtain ⟨hpc, rfl⟩ := Relay.wakeup_eq_some.mp ht
      exact Relay.startHandler_wakeInv h hpc.1 now isTarget ev
  | scan now peekError =>
      have hpeek := Relay.scanPeek_wakeInv h now peekError
      rcases (Relay.scan_eq_some ht).2 with rfl | rfl
      · exact hpeek
      · exact ⟨fun hne => (hne rfl).elim, hpeek.client_eof, nofun, nofun⟩
  | kernel side e =>
      cases side <;> obtain ⟨sock, hsock, rfl⟩ := Option.map_eq_some_iff.mp ht
      · exact Relay.kernel_client_wakeInv h hsock
      · exact ⟨h.open_of_pc, h.client_eof, h.client_armed, h.target_armed⟩
  | _ => exact (Relay.handle_spec ht).wakeInv h

theorem relayStep_eofInv {s t : Relay} {e : RelayEvent} (h : s.EofInv)
    (hc : s.RecordsEofSafely e) (ht : relayStep s e = some t) : t.EofInv := by
  cases e with
  | wakeup now isTarget ev =>
      obtain ⟨hpc, rfl⟩ := Relay.wakeup_eq_some.mp ht
      exact Relay.startHandler_eofInv h hpc.1 now hpc.2
  | scan now peekError =>
      obtain ⟨hpc, hscan⟩ := Relay.scan_eq_some ht
      have hpeek := Relay.scanPeek_eofInv h hpc now peekError
      rcases hscan with rfl | rfl
      · exact hpeek
      · exact ⟨hpeek.rdhup_fin, nofun, nofun, fun _ _ hne => (hne rfl).elim⟩
  | kernel side e =>
      cases side <;> obtain ⟨sock, hsock, rfl⟩ := Option.map_eq_some_iff.mp ht
      · exact ⟨h.rdhup_fin, h.not_fatal, h.fatal, h.recorded⟩
      · exact Relay.kernel_target_eofInv h hsock
  | _ => exact (Relay.handle_spec ht).eofInv h hc

theorem handoffToWorker_wakeInv (clientFd targetFd : ℕ) (c2tBuf t2cBuf : ℕ → UInt8) (now : Time) :
    (handoffToWorker clientFd targetFd c2tBuf t2cBuf now).WakeInv :=
  ⟨fun _ => rfl, nofun, fun _ _ => ⟨nofun, fun _ _ => rfl⟩, fun _ _ => ⟨nofun, fun _ _ => rfl⟩⟩

theorem handoffToWorker_eofInv (clientFd targetFd : ℕ) (c2tBuf t2cBuf : ℕ → UInt8) (now : Time) :
    (handoffToWorker clientFd targetFd c2tBuf t2cBuf now).EofInv :=
  ⟨(by rintro ⟨⟩), fun _ => rfl, (by rintro ⟨⟩), fun hne => (hne rfl).elim⟩

/-- In every run, the first three parts hold whenever the worker waits for the next event. -/
theorem Relay.WakeInv.armed {s : Relay} (h : s.WakeInv) (hpc : s.pc = .wait)
    (hok : s.ctlOk = true)
    (htarget : s.conn.t2c.len = 0 → s.target.Unread → s.conn.targetEofSince = 0) : s.Armed where
  target_out := (h.target_armed hpc hok).1
  client_out := (h.client_armed (Or.inr hpc) hok).1
  client_in := fun hlen hunread => by
    refine (h.client_armed (Or.inr hpc) hok).2 hlen (Bool.eq_false_iff.mpr fun heof => ?_)
    obtain ⟨hrx, -, hread⟩ := h.client_eof heof
    rcases hunread with hne | ⟨-, hunread⟩
    · exact hne hrx
    · rw [hread] at hunread
      cases hunread
  target_in := fun hlen hunread => (h.target_armed hpc hok).2 hlen (htarget hlen hunread)

/-- No wake-up is lost in a run that never disarms the target too early. -/
theorem relay_no_lost_wakeup (clientFd targetFd : ℕ) (c2tBuf t2cBuf : ℕ → UInt8) (now : Time)
    (es : List RelayEvent) (s : Relay)
    (hmeets : Meets relayStep Relay.RecordsEofSafely
      (handoffToWorker clientFd targetFd c2tBuf t2cBuf now) es)
    (hrun : run relayStep (handoffToWorker clientFd targetFd c2tBuf t2cBuf now) es = some s)
    (hpc : s.pc = .wait) (hok : s.ctlOk = true) : s.Armed := by
  have hwake : s.WakeInv := run_invariant (fun _ _ _ h ht => relayStep_wakeInv h ht)
    (handoffToWorker_wakeInv clientFd targetFd c2tBuf t2cBuf now) hrun
  have heof : s.EofInv := run_invariant_of_meets (fun _ _ _ h hc ht => relayStep_eofInv h hc ht)
    (handoffToWorker_eofInv clientFd targetFd c2tBuf t2cBuf now) hmeets hrun
  refine hwake.armed hpc hok fun hlen _ => ?_
  by_contra hne
  have hpos := (heof.pending (by rw [hpc]; rintro ⟨⟩) (by rw [hpc]; simp [Relay.Rereads])
    (by rw [hpc]; rintro ⟨⟩) hne (heof.not_fatal (by simp [hpc]))).2.2
  omega

/-- The target's FIN comes with its last bytes while the client does not read. -/
def stalledClientRun : List RelayEvent :=
  [.kernel .target (.arrive [1, 2]), .kernel .target .fin,
    .wakeup 7 true ⟨true, false, true, false, false⟩, .proceed, .proceed, .recv 0, .recv 9,
    .send .again, .proceed, .epollCtl true, .epollCtl true]

theorem relay_no_lost_wakeup_stalledClient :
    ∃ s, run relayStep (handoffToWorker 5 6 (fun _ => 0) (fun _ => 0) 7) stalledClientRun = some s ∧
      s.conn.targetEofSince = 7 ∧ s.Armed :=
  ⟨_, rfl, rfl, relay_no_lost_wakeup 5 6 (fun _ => 0) (fun _ => 0) 7 stalledClientRun _
    (by decide) rfl rfl rfl⟩

/-- After the client's FIN the target answers with one byte and its FIN. The byte is forwarded in
the handler that records EPOLLRDHUP, and the FIN is left unread with nothing armed. -/
def halfClosedRun : List RelayEvent :=
  [.kernel .client .fin, .wakeup 7 false ⟨true, false, true, false, false⟩, .proceed, .proceed,
    .recv 0, .recv 0, .proceed, .epollCtl true, .proceed,
    .kernel .client (.room 9), .kernel .target (.arrive [1]), .kernel .target .fin,
    .wakeup 8 true ⟨true, false, true, false, false⟩, .proceed, .proceed, .proceed, .recv 9,
    .send (.sent 9), .proceed, .proceed, .epollCtl true]

/-- In that run the handler ends with the connection open and every `epoll_ctl` call made, and
the wake-up is lost. -/
theorem lost_wakeup_halfClosed :
    ¬ ∀ (es : List RelayEvent) (s : Relay),
      run relayStep (handoffToWorker 5 6 (fun _ => 0) (fun _ => 0) 7) es = some s →
        s.pc = .wait → s.ctlOk = true → s.Armed := by
  intro h
  have harmed := h halfClosedRun _ rfl rfl rfl
  have hin := harmed.target_in rfl (Or.inr ⟨rfl, rfl⟩)
  cases hin

end FiveGProxy
