import FiveGProxy.Config
import FiveGProxy.Library.Tally
import FiveGProxy.Relay.Connection
import FiveGProxy.UdpSession.Parts
import Mathlib.Algebra.BigOperators.Ring.Finset
import Mathlib.Data.BitVec

/-!
# The traffic counters of a service cycle

`socks5_server_get_bytes` adds up one pair of counters for each TCP worker and each UDP worker. A
TCP worker counts what `try_send` has reported when it returns, whatever it returns, so within an
event the counter may lag behind the socket; between two events it does not. The other three
counters are changed together with the call that moves the bytes. The counters are natural numbers;
in the `long long` of the code the sums are the same up to 2^63 bytes (`getBytesWords_toInt`).
-/

namespace FiveGProxy

open Steps Tally

/-! ### One TCP connection -/

namespace Relay

/-- Every byte the target has accepted is counted, or is about to be by the `try_send` that is
running. -/
structure Accounted (s : Relay) : Prop where
  tx : s.txBytes + s.sent = s.toTarget.length
  rx : s.rxBytes = s.fromTarget.length
  sending : 0 < s.sent → (s.pc = .flushTarget ∨ s.pc = .sendTarget) ∧ 0 < s.conn.c2t.len

theorem Accounted.sent_eq_zero {s : Relay} (h : Accounted s)
    (hpc : s.pc ≠ .flushTarget ∨ s.conn.c2t.len = 0) (hpc' : s.pc ≠ .sendTarget) : s.sent = 0 := by
  by_contra hne
  obtain ⟨hsending, hlen⟩ := h.sending (Nat.pos_of_ne_zero hne)
  rcases hpc with hpc | hzero
  · exact hsending.elim hpc hpc'
  · exact hlen.ne' hzero

/-- At any other place of the worker no `try_send` on the target is running. -/
theorem Accounted.sent_eq_zero_at {s : Relay} (h : Accounted s) {pc : RelayPc} (hpc : s.pc = pc)
    (hflush : pc ≠ .flushTarget) (hsend : pc ≠ .sendTarget) : s.sent = 0 := by
  rw [← hpc] at hflush hsend
  exact h.sent_eq_zero (Or.inl hflush) hsend

def account (s : Relay) := (s.txBytes, s.sent, s.rxBytes, s.toTarget.length, s.fromTarget.length)

theorem Accounted.of_account {s t : Relay} (h : Accounted s) (hzero : s.sent = 0)
    (heq : t.account = s.account) : Accounted t := by
  simp only [account, Prod.mk.injEq] at heq
  obtain ⟨htx, hsent, hrx, hto, hfrom⟩ := heq
  refine ⟨?_, ?_, fun hpos => ?_⟩
  · rw [htx, hsent, hto, h.tx]
  · rw [hrx, hfrom, h.rx]
  · rw [hsent, hzero] at hpos
    exact absurd hpos (lt_irrefl 0)

theorem afterSend_account (s : Relay) (ret : Option SendRet) (next : RelayPc) :
    (s.afterSend ret next).account = s.account := by
  unfold afterSend
  split <;> rfl

theorem markTarget_account (s : Relay) : s.markTarget.account = s.account := by
  unfold markTarget
  split <;> rfl

/-- A turn of `try_send` on the target. What it has sent is counted as soon as it returns, also when
the turn fails. -/
theorem Accounted.sendToTarget {s : Relay} (h : Accounted s) {next : RelayPc} {turn : SendTurn}
    (hpc : s.pc = .flushTarget ∧ 0 < s.conn.c2t.len ∧ next = .readClient ∨
      s.pc = .sendTarget ∧ next = .readTarget)
    (hturn : TrySends s.conn.targetFd s.conn.c2t s.target turn) :
    Accounted ((({ s with
      conn := { s.conn with c2t := turn.pipe }
      target := turn.sock
      sent := s.sent + turn.accepted.length
      toTarget := s.toTarget ++ turn.accepted } : Relay).accountUpload turn.ret).afterSend
        turn.ret next) := by
  have htx := h.tx
  have hlen : (s.toTarget ++ turn.accepted).length = s.toTarget.length + turn.accepted.length :=
    List.length_append
  cases hret : turn.ret with
  | some r =>
      have hcounted : Accounted { s with
          conn := { s.conn with c2t := turn.pipe }
          target := turn.sock
          toTarget := s.toTarget ++ turn.accepted
          txBytes := s.txBytes + (s.sent + turn.accepted.length)
          sent := 0 } := by
        refine ⟨?_, h.rx, fun hpos => absurd hpos (lt_irrefl 0)⟩
        show s.txBytes + (s.sent + turn.accepted.length) + 0 = (s.toTarget ++ turn.accepted).length
        omega
      exact hcounted.of_account rfl (afterSend_account _ _ _)
  | none =>
      refine ⟨?_, h.rx, fun _ => ⟨?_, ?_⟩⟩
      · show s.txBytes + (s.sent + turn.accepted.length) = (s.toTarget ++ turn.accepted).length
        omega
      · show s.pc = .flushTarget ∨ s.pc = .sendTarget
        rcases hpc with ⟨hpc, -⟩ | ⟨hpc, -⟩
        · exact Or.inl hpc
        · exact Or.inr hpc
      · show 0 < turn.pipe.len
        cases hturn with
        | part n hn hlt => exact (Nat.zero_le _).trans_lt hlt
        | _ => cases hret

theorem Accounted.handles {s t : Relay} {e : RelayEvent} (h : Accounted s) (ht : Handles s e t) :
    Accounted t := by
  cases ht with
  | toTarget next turn hpc hturn => exact h.sendToTarget hpc hturn
  | toClient next turn hpc hturn =>
      have hzero : s.sent = 0 := by
        rcases hpc with ⟨hpc, -⟩ | ⟨hpc, -⟩
        · exact h.sent_eq_zero_at hpc (by rintro ⟨⟩) (by rintro ⟨⟩)
        · exact h.sent_eq_zero_at hpc (by rintro ⟨⟩) (by rintro ⟨⟩)
      exact h.of_account hzero (afterSend_account _ _ _)
  | skipTarget hpc hlen =>
      exact h.of_account (h.sent_eq_zero (Or.inr hlen) (by rw [hpc]; rintro ⟨⟩)) rfl
  | readTargetData hpc hlen b bs rest hrx hle =>
      have hzero := h.sent_eq_zero_at hpc (by rintro ⟨⟩) (by rintro ⟨⟩)
      refine ⟨h.tx, ?_, fun hpos => absurd hzero hpos.ne'⟩
      show s.rxBytes + (bs.length + 1) = (s.fromTarget ++ b :: bs).length
      rw [h.rx, List.length_append, List.length_cons]
  | markFatal hpc | markGrace hpc | markHalfClosed hpc | markProbe hpc | markPending hpc =>
      have hzero := h.sent_eq_zero_at hpc (by rintro ⟨⟩) (by rintro ⟨⟩)
      exact h.of_account hzero s.markTarget_account
  | _ =>
      have hpc := ‹s.pc = _›
      have hzero := h.sent_eq_zero_at hpc (by rintro ⟨⟩) (by rintro ⟨⟩)
      exact h.of_account hzero rfl

theorem Handles.counts_le {s t : Relay} {e : RelayEvent} (ht : Handles s e t) :
    s.txBytes ≤ t.txBytes ∧ s.rxBytes ≤ t.rxBytes := by
  cases ht with
  | toTarget next turn hpc hturn =>
      cases turn.ret with
      | none => exact ⟨le_rfl, le_rfl⟩
      | some r => cases r <;> exact ⟨Nat.le_add_right _ _, le_rfl⟩
  | toClient next turn hpc hturn =>
      cases turn.ret with
      | none => exact ⟨le_rfl, le_rfl⟩
      | some r => cases r <;> exact ⟨le_rfl, le_rfl⟩
  | readTargetData hpc hlen b bs rest hrx hle => exact ⟨le_rfl, Nat.le_add_right _ _⟩
  | markFatal hpc | markGrace hpc | markHalfClosed hpc | markProbe hpc | markPending hpc =>
      have haccount := s.markTarget_account
      simp only [account, Prod.mk.injEq] at haccount
      exact ⟨haccount.1.ge, haccount.2.2.1.ge⟩
  | _ => exact ⟨le_rfl, le_rfl⟩

theorem scanPeek_account (s : Relay) (now : Time) (peekError : Bool) :
    (s.scanPeek now peekError).account = s.account := by
  obtain ⟨since, hpeek⟩ := s.scanPeek_same now peekError
  rw [hpeek]
  rfl

end Relay

/-- Outside the handler nothing is counted, and nothing that is still to be counted is lost. -/
theorem relayStep_account {s t : Relay} {e : RelayEvent} (h : s.Accounted)
    (ht : relayStep s e = some t) :
    t.Accounted ∧ s.txBytes ≤ t.txBytes ∧ s.rxBytes ≤ t.rxBytes := by
  have hwait : s.pc = .wait → s.sent = 0 := fun hpc => h.sent_eq_zero_at hpc nofun nofun
  cases e with
  | wakeup now isTarget ev =>
      obtain ⟨⟨hpc, -⟩, rfl⟩ := Relay.wakeup_eq_some.mp ht
      have htx := h.tx
      rw [hwait hpc] at htx
      exact ⟨⟨htx, h.rx, fun hpos => absurd hpos (lt_irrefl 0)⟩, le_rfl, le_rfl⟩
  | scan now peekError =>
      obtain ⟨hpc, ht⟩ := Relay.scan_eq_some ht
      have haccount : t.account = s.account := by
        rcases ht with rfl | rfl
        · exact s.scanPeek_account now peekError
        · exact s.scanPeek_account now peekError
      have hcounts := haccount
      simp only [Relay.account, Prod.mk.injEq] at hcounts
      exact ⟨h.of_account (hwait hpc) haccount, hcounts.1.ge, hcounts.2.2.1.ge⟩
  | kernel side e =>
      cases side with
      | client =>
          obtain ⟨sock, -, rfl⟩ := Option.map_eq_some_iff.mp ht
          exact ⟨⟨h.tx, h.rx, h.sending⟩, le_rfl, le_rfl⟩
      | target =>
          obtain ⟨sock, -, rfl⟩ := Option.map_eq_some_iff.mp ht
          exact ⟨⟨h.tx, h.rx, h.sending⟩, le_rfl, le_rfl⟩
  | _ =>
      have hh := Relay.handle_spec ht
      exact ⟨h.handles hh, hh.counts_le⟩

/-! ### One UDP session -/

/-- Everything that went through the 5G socket is counted. -/
structure UdpConn.Accounted (s : UdpConn) : Prop where
  tx : s.txBytes = s.toRemote
  rx : s.session.rxBytes = s.fromRemote

theorem UdpConn.Part.account {s t : UdpConn} (hp : UdpConn.Part s t) (h : s.Accounted) :
    t.Accounted ∧ s.txBytes ≤ t.txBytes ∧ s.session.rxBytes ≤ t.session.rxBytes := by
  have htx := hp.tx
  have hrx := hp.rx
  have hto := hp.counts.toRemote_le
  have hfrom := hp.counts.fromRemote_le
  obtain ⟨htx', hrx'⟩ := h
  refine ⟨⟨?_, ?_⟩, ?_, ?_⟩ <;> omega

theorem Masked.idleScan_rxBytes (m : Masked) (now : Time) (pendCount : ℕ) :
    (m.idleScan now pendCount).session.rxBytes = m.session.rxBytes := by
  unfold Masked.idleScan
  split
  · rfl
  · simp only
    split_ifs <;> rfl

theorem udpConnStep_account {s t : UdpConn} {e : UdpConnEvent} (h : s.Accounted)
    (ht : udpConnStep s e = some t) :
    t.Accounted ∧ s.txBytes ≤ t.txBytes ∧ s.session.rxBytes ≤ t.session.rxBytes := by
  have hsame : ∀ u : UdpConn, u.txBytes = s.txBytes → u.toRemote = s.toRemote →
      u.fromRemote = s.fromRemote → u.session.rxBytes = s.session.rxBytes →
      u.Accounted ∧ s.txBytes ≤ u.txBytes ∧ s.session.rxBytes ≤ u.session.rxBytes := by
    intro u htx hto hfrom hrx
    refine ⟨⟨?_, ?_⟩, htx.ge, hrx.ge⟩
    · rw [htx, hto, h.tx]
    · rw [hrx, hfrom, h.rx]
  cases e with
  | wakeup now role =>
      obtain ⟨-, ht⟩ := Option.ite_none_right_eq_some.mp ht
      cases ht
      exact (s.startHandler_part now role).account h
  | scan now pendCount =>
      obtain ⟨-, ht⟩ := Option.ite_none_right_eq_some.mp ht
      cases ht
      exact hsame _ rfl rfl rfl (s.toMasked.idleScan_rxBytes now pendCount)
  | replay payload r =>
      obtain ⟨-, ht⟩ := Option.ite_none_right_eq_some.mp ht
      cases ht
      exact (s.udpSend5g_part payload r).account h
  | network n =>
      obtain ⟨hm, -, htx, hto, hfrom⟩ := UdpConn.network_same ht
      exact hsame t htx hto hfrom (by rw [hm])
  | _ =>
      obtain ⟨-, ⟨-, hp | hu⟩ | ⟨-, rfl⟩⟩ := UdpConn.handle_spec ht
      · exact hp.account h
      · cases hu with
        | clientSame | remoteSame => exact hsame _ rfl rfl rfl rfl
        | client hpc hne ok =>
            exact hsame _ rfl rfl rfl (by rw [s.toMasked.armClient_session ok])
        | remote hpc hneg hne ok =>
            exact hsame _ rfl rfl rfl (by rw [s.toMasked.armRemote_session ok])
      · exact hsame _ rfl rfl rfl rfl

/-! ### The service cycle -/

/-- The four arrays of counters, and all connections and sessions of the cycle with their workers,
also those that are closed. -/
structure Traffic where
  serverRunning : Bool
  gTxBytes : Fin workerCount → ℕ
  gRxBytes : Fin workerCount → ℕ
  gUdpTxBytes : Fin udpWorkerCount → ℕ
  gUdpRxBytes : Fin udpWorkerCount → ℕ
  tcp : List (Fin workerCount × Relay)
  udp : List (Fin udpWorkerCount × UdpConn)

/-- What happens in a cycle: a connection or a session is handed to a worker, something happens to
connection or session number `i`, or `socks5_server_quit` is called. -/
inductive TrafficEvent where
  | handoff (w : Fin workerCount) (clientFd targetFd : ℕ) (c2tBuf t2cBuf : ℕ → UInt8) (now : Time)
  | startSession (w : Fin udpWorkerCount) (inBuf outBuf lenBytes : ℕ → UInt8) (localUdpFd : ℤ)
      (remoteUdpFd : ℕ) (peer : SrcAddr) (now : Time)
  | tcp (i : ℕ) (e : RelayEvent)
  | udp (i : ℕ) (e : UdpConnEvent)
  | quit

namespace Traffic

/-- `socks5_server_main_dynamic` resets the counters. -/
def start : Traffic where
  serverRunning := true
  gTxBytes := fun _ => 0
  gRxBytes := fun _ => 0
  gUdpTxBytes := fun _ => 0
  gUdpRxBytes := fun _ => 0
  tcp := []
  udp := []

/-- What a connection adds to its own counts it adds to the counters of its worker. -/
def setTcp (s : Traffic) (i : ℕ) (w : Fin workerCount) (r t : Relay) : Traffic :=
  { s with
    tcp := s.tcp.set i (w, t)
    gTxBytes := credit s.gTxBytes w (t.txBytes - r.txBytes)
    gRxBytes := credit s.gRxBytes w (t.rxBytes - r.rxBytes) }

def setUdp (s : Traffic) (i : ℕ) (w : Fin udpWorkerCount) (u v : UdpConn) : Traffic :=
  { s with
    udp := s.udp.set i (w, v)
    gUdpTxBytes := credit s.gUdpTxBytes w (v.txBytes - u.txBytes)
    gUdpRxBytes := credit s.gUdpRxBytes w (v.session.rxBytes - u.session.rxBytes) }

/-- `socks5_server_get_bytes` with two valid pointers: `*tx` and `*rx`. -/
def getBytes (s : Traffic) : ℕ × ℕ :=
  if s.serverRunning then
    (∑ i, s.gTxBytes i + ∑ i, s.gUdpTxBytes i, ∑ i, s.gRxBytes i + ∑ i, s.gUdpRxBytes i)
  else (0, 0)

/-- `getBytes` in words of 64 bits, as `atomic_llong` and `long long` hold them. -/
def getBytesWords (s : Traffic) : BitVec 64 × BitVec 64 :=
  if s.serverRunning then
    (∑ i, (s.gTxBytes i : BitVec 64) + ∑ i, (s.gUdpTxBytes i : BitVec 64),
      ∑ i, (s.gRxBytes i : BitVec 64) + ∑ i, (s.gUdpRxBytes i : BitVec 64))
  else (0, 0)

/-- The bytes that `send` and `sendto` have accepted on target and 5G sockets. -/
def accepted (s : Traffic) : ℕ :=
  total (fun c => c.2.toTarget.length) s.tcp + total (fun c => c.2.toRemote) s.udp

/-- The bytes that `recv` and `recvfrom` have returned on target and 5G sockets. -/
def returned (s : Traffic) : ℕ :=
  total (fun c => c.2.fromTarget.length) s.tcp + total (fun c => c.2.fromRemote) s.udp

def BetweenEvents (s : Traffic) : Prop :=
  (∀ c ∈ s.tcp, c.2.pc = .wait ∨ c.2.pc = .closed) ∧
    ∀ c ∈ s.udp, c.2.pc = .wait ∨ c.2.pc = .closed

instance (s : Traffic) : Decidable s.BetweenEvents := inferInstanceAs (Decidable (_ ∧ _))

end Traffic

def trafficStep : Step Traffic TrafficEvent := fun s e =>
  match e with
  | .handoff w clientFd targetFd c2tBuf t2cBuf now =>
      some { s with tcp := s.tcp ++ [(w, handoffToWorker clientFd targetFd c2tBuf t2cBuf now)] }
  | .startSession w inBuf outBuf lenBytes localUdpFd remoteUdpFd peer now =>
      some { s with udp := s.udp ++
        [(w, UdpConn.udpStartSession inBuf outBuf lenBytes localUdpFd remoteUdpFd peer now)] }
  | .tcp i e =>
      match s.tcp[i]? with
      | none => none
      | some (w, r) => (relayStep r e).map (s.setTcp i w r)
  | .udp i e =>
      match s.udp[i]? with
      | none => none
      | some (w, u) => (udpConnStep u e).map (s.setUdp i w u)
  | .quit => some { s with serverRunning := false }

namespace Traffic

theorem getBytesWords_eq (s : Traffic) :
    s.getBytesWords = (BitVec.ofNat 64 s.getBytes.1, BitVec.ofNat 64 s.getBytes.2) := by
  unfold getBytesWords getBytes
  split
  · simp only [← BitVec.natCast_eq_ofNat, Nat.cast_add, Nat.cast_sum]
  · rfl

theorem getBytesWords_toInt {s : Traffic} (htx : s.getBytes.1 < 2 ^ 63)
    (hrx : s.getBytes.2 < 2 ^ 63) :
    (s.getBytesWords.1.toInt, s.getBytesWords.2.toInt) = ((s.getBytes.1 : ℤ), (s.getBytes.2 : ℤ)) := by
  have htoInt : ∀ n : ℕ, n < 2 ^ 63 → (BitVec.ofNat 64 n).toInt = n := fun n hn => by
    have hnat : (BitVec.ofNat 64 n).toNat = n :=
      (BitVec.toNat_ofNat n 64).trans (Nat.mod_eq_of_lt (by omega))
    rw [BitVec.toInt_eq_toNat_of_lt (by rw [hnat]; omega), hnat]
  rw [getBytesWords_eq, htoInt _ htx, htoInt _ hrx]

/-- The counters are the totals of what the connections and sessions have counted. -/
structure Inv (s : Traffic) : Prop where
  tcp : ∀ c ∈ s.tcp, c.2.Accounted
  udp : ∀ c ∈ s.udp, c.2.Accounted
  gTxBytes : ∑ i, s.gTxBytes i = total (fun c => c.2.txBytes) s.tcp
  gRxBytes : ∑ i, s.gRxBytes i = total (fun c => c.2.rxBytes) s.tcp
  gUdpTxBytes : ∑ i, s.gUdpTxBytes i = total (fun c => c.2.txBytes) s.udp
  gUdpRxBytes : ∑ i, s.gUdpRxBytes i = total (fun c => c.2.session.rxBytes) s.udp

theorem start_inv : Inv start where
  tcp := fun _ hc => absurd hc List.not_mem_nil
  udp := fun _ hc => absurd hc List.not_mem_nil
  gTxBytes := Finset.sum_const_zero
  gRxBytes := Finset.sum_const_zero
  gUdpTxBytes := Finset.sum_const_zero
  gUdpRxBytes := Finset.sum_const_zero

theorem handoff_inv {s : Traffic} (h : Inv s) (w : Fin workerCount) (clientFd targetFd : ℕ)
    (c2tBuf t2cBuf : ℕ → UInt8) (now : Time) :
    Inv { s with tcp := s.tcp ++ [(w, handoffToWorker clientFd targetFd c2tBuf t2cBuf now)] } where
  tcp := by
    intro c hc
    rcases List.mem_append.mp hc with hc | hc
    · exact h.tcp c hc
    · rw [List.mem_singleton.mp hc]
      exact ⟨rfl, rfl, fun hpos => absurd hpos (lt_irrefl 0)⟩
  udp := h.udp
  gTxBytes := by
    rw [total_append (fun c : Fin workerCount × Relay => c.2.txBytes) _ rfl]
    exact h.gTxBytes
  gRxBytes := by
    rw [total_append (fun c : Fin workerCount × Relay => c.2.rxBytes) _ rfl]
    exact h.gRxBytes
  gUdpTxBytes := h.gUdpTxBytes
  gUdpRxBytes := h.gUdpRxBytes

theorem startSession_inv {s : Traffic} (h : Inv s) (w : Fin udpWorkerCount)
    (inBuf outBuf lenBytes : ℕ → UInt8) (localUdpFd : ℤ) (remoteUdpFd : ℕ) (peer : SrcAddr)
    (now : Time) :
    Inv { s with udp := s.udp ++
      [(w, UdpConn.udpStartSession inBuf outBuf lenBytes localUdpFd remoteUdpFd peer now)] } where
  tcp := h.tcp
  udp := by
    intro c hc
    rcases List.mem_append.mp hc with hc | hc
    · exact h.udp c hc
    · rw [List.mem_singleton.mp hc]
      exact ⟨rfl, rfl⟩
  gTxBytes := h.gTxBytes
  gRxBytes := h.gRxBytes
  gUdpTxBytes := by
    rw [total_append (fun c : Fin udpWorkerCount × UdpConn => c.2.txBytes) _ rfl]
    exact h.gUdpTxBytes
  gUdpRxBytes := by
    rw [total_append (fun c : Fin udpWorkerCount × UdpConn => c.2.session.rxBytes) _ rfl]
    exact h.gUdpRxBytes

theorem setTcp_inv {s : Traffic} (h : Inv s) {i : ℕ} {w : Fin workerCount} {r t : Relay}
    {e : RelayEvent} (hr : s.tcp[i]? = some (w, r)) (ht : relayStep r e = some t) :
    Inv (s.setTcp i w r t) := by
  obtain ⟨haccount, htx, hrx⟩ :=
    relayStep_account (h.tcp (w, r) (List.mem_of_getElem? hr)) ht
  refine ⟨fun c hc => ?_, h.udp, sum_credit_set h.gTxBytes hr (w, t) htx w,
    sum_credit_set h.gRxBytes hr (w, t) hrx w, h.gUdpTxBytes, h.gUdpRxBytes⟩
  rcases List.mem_or_eq_of_mem_set hc with hc | rfl
  · exact h.tcp c hc
  · exact haccount

theorem setUdp_inv {s : Traffic} (h : Inv s) {i : ℕ} {w : Fin udpWorkerCount} {u v : UdpConn}
    {e : UdpConnEvent} (hu : s.udp[i]? = some (w, u)) (hv : udpConnStep u e = some v) :
    Inv (s.setUdp i w u v) := by
  obtain ⟨haccount, htx, hrx⟩ :=
    udpConnStep_account (h.udp (w, u) (List.mem_of_getElem? hu)) hv
  refine ⟨h.tcp, fun c hc => ?_, h.gTxBytes, h.gRxBytes,
    sum_credit_set h.gUdpTxBytes hu (w, v) htx w, sum_credit_set h.gUdpRxBytes hu (w, v) hrx w⟩
  rcases List.mem_or_eq_of_mem_set hc with hc | rfl
  · exact h.udp c hc
  · exact haccount

end Traffic

theorem trafficStep_inv {s t : Traffic} {e : TrafficEvent} (h : s.Inv)
    (ht : trafficStep s e = some t) : t.Inv := by
  cases e with
  | handoff w clientFd targetFd c2tBuf t2cBuf now =>
      cases ht
      exact Traffic.handoff_inv h w clientFd targetFd c2tBuf t2cBuf now
  | startSession w inBuf outBuf lenBytes localUdpFd remoteUdpFd peer now =>
      cases ht
      exact Traffic.startSession_inv h w inBuf outBuf lenBytes localUdpFd remoteUdpFd peer now
  | tcp i e =>
      simp only [trafficStep] at ht
      split at ht
      · cases ht
      · rename_i w r hr
        obtain ⟨u, hu, rfl⟩ := Option.map_eq_some_iff.mp ht
        exact Traffic.setTcp_inv h hr hu
  | udp i e =>
      simp only [trafficStep] at ht
      split at ht
      · cases ht
      · rename_i w u hu
        obtain ⟨v, hv, rfl⟩ := Option.map_eq_some_iff.mp ht
        exact Traffic.setUdp_inv h hu hv
  | quit =>
      cases ht
      exact ⟨h.tcp, h.udp, h.gTxBytes, h.gRxBytes, h.gUdpTxBytes, h.gUdpRxBytes⟩

namespace Traffic

/-- At any moment the counters lag behind the sockets by what the calls of `try_send` that are
running have sent. -/
theorem Inv.lag {s : Traffic} (h : s.Inv) :
    (∑ i, s.gTxBytes i + ∑ i, s.gUdpTxBytes i) + total (fun c => c.2.sent) s.tcp = s.accepted ∧
      ∑ i, s.gRxBytes i + ∑ i, s.gUdpRxBytes i = s.returned := by
  have htx : total (fun c => c.2.toTarget.length) s.tcp =
      total (fun c => c.2.txBytes) s.tcp + total (fun c => c.2.sent) s.tcp := by
    rw [← total_add]
    exact total_congr fun c hc => (h.tcp c hc).tx.symm
  have hrx : total (fun c => c.2.fromTarget.length) s.tcp = total (fun c => c.2.rxBytes) s.tcp :=
    total_congr fun c hc => (h.tcp c hc).rx.symm
  have hudpTx : total (fun c => c.2.toRemote) s.udp = total (fun c => c.2.txBytes) s.udp :=
    total_congr fun c hc => (h.udp c hc).tx.symm
  have hudpRx : total (fun c => c.2.fromRemote) s.udp =
      total (fun c => c.2.session.rxBytes) s.udp :=
    total_congr fun c hc => (h.udp c hc).rx.symm
  rw [accepted, returned, htx, hrx, hudpTx, hudpRx, h.gTxBytes, h.gRxBytes, h.gUdpTxBytes,
    h.gUdpRxBytes]
  exact ⟨by omega, rfl⟩

/-- Between two events no `try_send` is running. -/
theorem Inv.sent_eq_zero {s : Traffic} (h : s.Inv) (hbetween : s.BetweenEvents) :
    total (fun c => c.2.sent) s.tcp = 0 := by
  refine total_eq_zero fun c hc => ?_
  rcases hbetween.1 c hc with hpc | hpc
  · exact (h.tcp c hc).sent_eq_zero_at hpc nofun nofun
  · exact (h.tcp c hc).sent_eq_zero_at hpc nofun nofun

end Traffic

/-- Between two events the counters are exact, whatever the connections and sessions have met with,
and as long as the server runs `socks5_server_get_bytes` reports them, in 64 bits as long as the totals
are below 2^63. -/
theorem traffic_exact (es : List TrafficEvent) (s : Traffic)
    (hrun : run trafficStep .start es = some s) (hbetween : s.BetweenEvents) :
    (∑ i, s.gTxBytes i + ∑ i, s.gUdpTxBytes i, ∑ i, s.gRxBytes i + ∑ i, s.gUdpRxBytes i) =
        (s.accepted, s.returned) ∧
      (s.serverRunning = true → s.getBytes = (s.accepted, s.returned)) ∧
      (s.serverRunning = true → s.accepted < 2 ^ 63 → s.returned < 2 ^ 63 →
        (s.getBytesWords.1.toInt, s.getBytesWords.2.toInt) = ((s.accepted : ℤ), (s.returned : ℤ))) := by
  have hinv : s.Inv :=
    run_invariant (fun _ _ _ h ht => trafficStep_inv h ht) Traffic.start_inv hrun
  obtain ⟨htx, hrx⟩ := hinv.lag
  rw [hinv.sent_eq_zero hbetween, Nat.add_zero] at htx
  have hbytes : s.serverRunning = true → s.getBytes = (s.accepted, s.returned) := fun hrunning => by
    rw [Traffic.getBytes, if_pos hrunning, htx, hrx]
  refine ⟨by rw [htx, hrx], hbytes, fun hrunning hlt hlt' => ?_⟩
  have hwords := Traffic.getBytesWords_toInt (s := s)
  rw [hbytes hrunning] at hwords
  exact hwords hlt hlt'

/-- Three bytes of a client, of which the target takes two before its socket fails, and a datagram
of three bytes on a session that has no client yet. -/
def failedFlushRun : List TrafficEvent :=
  [.handoff 0 5 6 (fun _ => 0) (fun _ => 0) 7,
    .startSession 1 (fun _ => 0) (fun _ => 0) (fun _ => 0) 8 9 (.inet (octets 127 0 0 1) (0, 1)) 7,
    .tcp 0 (.kernel .client (.arrive [1, 2, 3])), .tcp 0 (.kernel .target (.room 2)),
    .tcp 0 (.wakeup 8 false ⟨true, false, false, false, false⟩), .tcp 0 .proceed, .tcp 0 .proceed,
    .tcp 0 (.recv 9), .tcp 0 (.send (.sent 1)), .tcp 0 (.send (.error 104)), .tcp 0 .proceed,
    .tcp 0 .proceed, .tcp 0 .proceed,
    .udp 0 (.network (.remoteArrive ⟨.inet (octets 192 0 2 1) (0, 53), [4, 5, 6]⟩)),
    .udp 0 (.wakeup 8 .remote), .udp 0 .recvfrom, .udp 0 .recvfrom, .udp 0 .proceed,
    .udp 0 .proceed]

theorem traffic_exact_failedFlush :
    ∃ s, run trafficStep .start failedFlushRun = some s ∧ s.getBytes = (2, 3) ∧
      s.getBytesWords.1.toInt = 2 ∧ s.getBytesWords.2.toInt = 3 := by
  obtain ⟨s, hs, hbetween, hrunning, haccepted, hreturned⟩ :
      ∃ s, run trafficStep .start failedFlushRun = some s ∧ s.BetweenEvents ∧
        s.serverRunning = true ∧ s.accepted = 2 ∧ s.returned = 3 :=
    exists_run_of_any (by decide +kernel)
  obtain ⟨-, hbytes, hwords⟩ := traffic_exact failedFlushRun s hs hbetween
  rw [haccepted, hreturned] at hbytes hwords
  exact ⟨s, hs, hbytes hrunning, Prod.mk.inj (hwords hrunning (by decide) (by decide))⟩

end FiveGProxy
