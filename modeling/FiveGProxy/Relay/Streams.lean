import FiveGProxy.Relay.Connection

/-!
# The relay does not alter the streams

In each direction the bytes accepted by `send` on the one socket, followed by the unsent part of
the buffer, are the bytes returned by `recv` on the other (`Pipe.Carries`). A turn of `try_send`
moves bytes from the one part to the other, reading refills an empty buffer, and no other step
touches a buffer.
-/

namespace FiveGProxy

open Memory Steps

/-- The bytes received and not accepted yet are the unsent part of the buffer. -/
structure Pipe.Carries (p : Pipe) (received accepted : List UInt8) : Prop where
  bytes : accepted ++ p.pending = received
  off_lt : 0 < p.len → p.off < p.len
  off_le : p.off ≤ p.len
  len_le : p.len ≤ bufferSize

namespace Pipe

theorem pending_of_le {p : Pipe} (h : p.len ≤ p.off) : p.pending = [] := by
  rw [pending, Nat.sub_eq_zero_of_le h, slice_zero]

/-- A turn of `try_send` moves bytes to the accepted ones. -/
theorem Carries.trySends {p : Pipe} {received accepted : List UInt8}
    (h : p.Carries received accepted) {fd : ℤ} {sock : StreamSocket} {t : SendTurn}
    (ht : TrySends fd p sock t) : t.pipe.Carries received (accepted ++ t.accepted) := by
  have hbytes := h.bytes
  have hsame : p.Carries received (accepted ++ []) := by rwa [List.append_nil]
  cases ht with
  | noFd hfd => exact hsame
  | blocked hroom => exact hsame
  | failed => exact hsame
  | empty hoff =>
      rw [pending_of_le hoff] at hbytes
      exact ⟨by simpa [pending] using hbytes, nofun, le_rfl, Nat.zero_le _⟩
  | part n hn hlt =>
      refine ⟨?_, fun _ => hlt, le_of_lt hlt, h.len_le⟩
      have hsplit : p.pending = slice p.buf p.off n ++ slice p.buf (p.off + n) (p.len - (p.off + n)) := by
        rw [pending, ← slice_add]
        congr 1
        omega
      rw [← hbytes, hsplit, List.append_assoc]
      rfl
  | rest n hn heq =>
      refine ⟨?_, nofun, le_rfl, Nat.zero_le _⟩
      have hall : p.len - p.off = n := by omega
      rw [← hbytes, pending_of_le (Nat.zero_le _), List.append_nil, Pipe.pending, hall]

theorem Carries.fill {p : Pipe} {received accepted : List UInt8} (h : p.Carries received accepted)
    (hlen : p.len = 0) {bytes : List UInt8} (hbytes : bytes.length ≤ bufferSize) :
    Pipe.Carries ⟨write p.buf 0 bytes, bytes.length, 0⟩ (received ++ bytes) accepted := by
  have hold := h.bytes
  rw [pending_of_le (by omega)] at hold
  refine ⟨?_, id, Nat.zero_le _, hbytes⟩
  rw [← hold, List.append_nil, pending, Nat.sub_zero, slice_write_self]

end Pipe

/-- Both directions carry what was read from their source. -/
structure StreamsInv (s : Relay) : Prop where
  c2t : s.conn.c2t.Carries s.fromClient s.toTarget
  t2c : s.conn.t2c.Carries s.fromTarget s.toClient

namespace Relay

def streams (s : Relay) :=
  (s.conn.c2t, s.conn.t2c, s.fromClient, s.toTarget, s.fromTarget, s.toClient)

end Relay

theorem StreamsInv.of_eq {s t : Relay} (h : StreamsInv s) (heq : t.streams = s.streams) :
    StreamsInv t := by
  simp only [Relay.streams, Prod.mk.injEq] at heq
  obtain ⟨hc2t, ht2c, hfc, htt, hft, htc⟩ := heq
  refine ⟨?_, ?_⟩
  · rw [hc2t, hfc, htt]
    exact h.c2t
  · rw [ht2c, hft, htc]
    exact h.t2c

namespace Relay

@[simp] theorem afterSend_streams (s : Relay) (ret : Option SendRet) (next : RelayPc) :
    (s.afterSend ret next).streams = s.streams := by
  unfold afterSend
  split <;> rfl

@[simp] theorem accountUpload_streams (s : Relay) (ret : Option SendRet) :
    (s.accountUpload ret).streams = s.streams := by
  unfold accountUpload
  split <;> rfl

@[simp] theorem markTarget_streams (s : Relay) : s.markTarget.streams = s.streams := by
  unfold markTarget
  split <;> rfl

@[simp] theorem scanPeek_streams (s : Relay) (now : Time) (peekError : Bool) :
    (s.scanPeek now peekError).streams = s.streams := by
  obtain ⟨since, hpeek⟩ := s.scanPeek_same now peekError
  rw [hpeek]
  rfl

theorem Handles.streams {s t : Relay} {e : RelayEvent} (h : StreamsInv s) (ht : Handles s e t) :
    StreamsInv t := by
  cases ht with
  | toClient next turn hpc hturn =>
      refine StreamsInv.of_eq ?_ (afterSend_streams _ _ _)
      exact ⟨h.c2t, h.t2c.trySends hturn⟩
  | toTarget next turn hpc hturn =>
      refine StreamsInv.of_eq ?_ ((afterSend_streams _ _ _).trans (accountUpload_streams _ _))
      exact ⟨h.c2t.trySends hturn, h.t2c⟩
  | readClientData hpc hguard b bs rest hrx hle => exact ⟨h.c2t.fill hguard.2.1 hle, h.t2c⟩
  | readTargetData hpc hlen b bs rest hrx hle => exact ⟨h.c2t, h.t2c.fill hlen hle⟩
  | markFatal | markGrace | markHalfClosed | markProbe | markPending =>
      exact h.of_eq s.markTarget_streams
  | _ => exact h.of_eq rfl

end Relay

theorem relayStep_streams {s t : Relay} {e : RelayEvent} (h : StreamsInv s)
    (ht : relayStep s e = some t) : StreamsInv t := by
  cases e with
  | wakeup now isTarget ev =>
      obtain ⟨-, rfl⟩ := Relay.wakeup_eq_some.mp ht
      exact h.of_eq rfl
  | scan now peekError =>
      have hpeek := s.scanPeek_streams now peekError
      rcases (Relay.scan_eq_some ht).2 with rfl | rfl
      · exact h.of_eq hpeek
      · exact h.of_eq hpeek
  | kernel side e =>
      cases side <;> obtain ⟨sock, -, rfl⟩ := Option.map_eq_some_iff.mp ht <;> exact h.of_eq rfl
  | _ => exact (Relay.handle_spec ht).streams h

theorem run_streams {clientFd targetFd : ℕ} {c2tBuf t2cBuf : ℕ → UInt8} {now : Time}
    {es : List RelayEvent} {s : Relay}
    (hrun : run relayStep (handoffToWorker clientFd targetFd c2tBuf t2cBuf now) es = some s) :
    StreamsInv s :=
  run_invariant (fun _ _ _ h ht => relayStep_streams h ht)
    ⟨⟨rfl, id, le_rfl, Nat.zero_le _⟩, ⟨rfl, id, le_rfl, Nat.zero_le _⟩⟩ hrun

/-- In every run, whatever the kernel answers and whenever, each direction delivers an in-order
prefix of what it read and keeps the rest in its buffer. -/
theorem relay_stream_fidelity (clientFd targetFd : ℕ) (c2tBuf t2cBuf : ℕ → UInt8) (now : Time)
    (es : List RelayEvent) (s : Relay)
    (hrun : run relayStep (handoffToWorker clientFd targetFd c2tBuf t2cBuf now) es = some s) :
    s.toTarget ++ slice s.conn.c2t.buf s.conn.c2t.off (s.conn.c2t.len - s.conn.c2t.off) =
        s.fromClient ∧
      s.toClient ++ slice s.conn.t2c.buf s.conn.t2c.off (s.conn.t2c.len - s.conn.t2c.off) =
        s.fromTarget ∧
      s.toTarget <+: s.fromClient ∧ s.toClient <+: s.fromTarget ∧
      s.conn.c2t.off ≤ s.conn.c2t.len ∧ s.conn.c2t.len ≤ bufferSize ∧
      s.conn.t2c.off ≤ s.conn.t2c.len ∧ s.conn.t2c.len ≤ bufferSize := by
  have h := run_streams hrun
  exact ⟨h.c2t.bytes, h.t2c.bytes, ⟨_, h.c2t.bytes⟩, ⟨_, h.t2c.bytes⟩, h.c2t.off_le, h.c2t.len_le,
    h.t2c.off_le, h.t2c.len_le⟩

def backPressureRun : List RelayEvent :=
  [.kernel .client (.arrive [1, 2, 3]), .kernel .target (.room 2),
    .wakeup 7 false ⟨true, false, false, false, false⟩, .proceed, .proceed, .recv 9,
    .send (.sent 9), .send .again, .recv 0, .proceed, .epollCtl true, .epollCtl true]

theorem relay_stream_fidelity_backPressure :
    ∃ s, run relayStep (handoffToWorker 5 6 (fun _ => 0) (fun _ => 0) 7) backPressureRun = some s ∧
      s.fromClient = [1, 2, 3] ∧ s.toTarget = [1, 2] ∧ s.toTarget <+: s.fromClient :=
  ⟨_, rfl, rfl, rfl, (relay_stream_fidelity 5 6 (fun _ => 0) (fun _ => 0) 7 backPressureRun _
    rfl).2.2.1⟩

end FiveGProxy
