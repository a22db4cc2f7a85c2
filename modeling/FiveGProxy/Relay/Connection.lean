import FiveGProxy.Relay.Forward
import FiveGProxy.Library.Steps

/-!
# A relayed TCP connection

The event handler of `worker_loop_safe` for one registered connection, cut at its system calls,
with the kernel's side of both sockets. Between two calls only data of the worker is touched, so
each local part is one step; what the network does to the sockets may happen between any two
steps. The five-second scan runs on the same thread between two events.

`fromClient`, `toTarget`, `fromTarget` and `toClient` record the bytes returned by `recv` and
accepted by `send`; nothing reads them.
-/

namespace FiveGProxy

open Memory

structure FullConn where
  clientFd : ℤ
  targetFd : ℤ
  c2t : Pipe
  t2c : Pipe
  closed : Bool
  clientEof : Bool
  eofSince : Time
  targetEofSince : Time
  clientEvents : EpollEvents
  targetEvents : EpollEvents
  lastActive : Time

/-- Where the worker is in the handling of an event. -/
inductive RelayPc where
  | wait
  | flushClient
  | flushTarget
  | readClient
  | sendTarget
  | readTarget
  | sendClient
  | markEof
  | probe
  | ctlClient
  | ctlTarget
  | collect
  | closed
  deriving DecidableEq

/-- The connection, its sockets, the locals of the handler and the record of the bytes. `ctlOk`
says that the `epoll_ctl` calls of the last handler succeeded. -/
structure Relay where
  conn : FullConn
  client : StreamSocket
  target : StreamSocket
  pc : RelayPc
  now : Time
  isTarget : Bool
  ev : EpollEvents
  fatalError : Bool
  sent : ℕ
  ctlOk : Bool
  txBytes : ℕ
  rxBytes : ℕ
  fromClient : List UInt8
  toTarget : List UInt8
  fromTarget : List UInt8
  toClient : List UInt8

inductive Side where
  | client
  | target
  deriving DecidableEq

/-- What can happen next: an event of `epoll_wait` or the scan, a part of the handler with the
answer of its system call, or the network. -/
inductive RelayEvent where
  | wakeup (now : Time) (isTarget : Bool) (ev : EpollEvents)
  | scan (now : Time) (peekError : Bool)
  | proceed
  | send (r : SendResult)
  | recv (k : ℕ)
  | recvError
  | peek
  | epollCtl (ok : Bool)
  | kernel (side : Side) (e : KernelEvent)
  deriving DecidableEq

def idleTimeoutSec : Time := 300

/-- The masks of `update_conn_events` for the client and for the target. -/
def FullConn.interest (c : FullConn) : EpollEvents × EpollEvents :=
  let fwd := connForwardInterest c.closed c.clientEof (c.targetEofSince ≠ 0) (0 < c.c2t.len)
    (0 < c.t2c.len)
  (mapFwdToEpoll fwd.1, mapFwdToEpoll fwd.2)

/-- The connection `handoff_to_worker` registers, on two connected sockets. -/
def handoffToWorker (clientFd targetFd : ℕ) (c2tBuf t2cBuf : ℕ → UInt8) (now : Time) : Relay where
  conn := {
    clientFd := clientFd
    targetFd := targetFd
    c2t := ⟨c2tBuf, 0, 0⟩
    t2c := ⟨t2cBuf, 0, 0⟩
    closed := false
    clientEof := false
    eofSince := 0
    targetEofSince := 0
    clientEvents := ⟨true, false, true, false, false⟩
    targetEvents := ⟨true, false, true, false, false⟩
    lastActive := now }
  client := .connected
  target := .connected
  pc := .wait
  now := now
  isTarget := false
  ev := ⟨false, false, false, false, false⟩
  fatalError := false
  sent := 0
  ctlOk := true
  txBytes := 0
  rxBytes := 0
  fromClient := []
  toTarget := []
  fromTarget := []
  toClient := []

namespace Relay

/-- The start of the handler for an event that passed `conn_event_check_slot`. -/
def startHandler (s : Relay) (now : Time) (isTarget : Bool) (ev : EpollEvents) : Relay :=
  let fatal := ev.epollerr || ev.epollhup
  { s with
    conn := { s.conn with lastActive := now }
    now := now
    isTarget := isTarget
    ev := ev
    fatalError := fatal
    sent := 0
    ctlOk := true
    pc := if fatal then .collect else .flushClient }

def wakeup (s : Relay) (now : Time) (isTarget : Bool) (ev : EpollEvents) : Option Relay :=
  if s.pc = .wait ∧ (ev.epollrdhup → (if isTarget then s.target else s.client).fin) then
    some (s.startHandler now isTarget ev)
  else none

/-- The handler goes on at `next` when `try_send` has returned. -/
def afterSend (s : Relay) (ret : Option SendRet) (next : RelayPc) : Relay :=
  match ret with
  | none => s
  | some .failed => { s with fatalError := true, pc := next }
  | some _ => { s with pc := next }

/-- A turn of `try_send` on the client socket. -/
def sendToClient (s : Relay) (r : Option SendResult) (next : RelayPc) : Option Relay :=
  (trySendTurn s.conn.clientFd s.conn.t2c s.client r).map fun t =>
    ({ s with
      conn := { s.conn with t2c := t.pipe }
      client := t.sock
      toClient := s.toClient ++ t.accepted } : Relay).afterSend t.ret next

/-- `account_upload` with what `try_send` reported when it returned. -/
def accountUpload (s : Relay) (ret : Option SendRet) : Relay :=
  if ret.isSome then { s with txBytes := s.txBytes + s.sent, sent := 0 } else s

/-- A turn of `try_send` on the target socket. -/
def sendToTarget (s : Relay) (r : Option SendResult) (next : RelayPc) : Option Relay :=
  (trySendTurn s.conn.targetFd s.conn.c2t s.target r).map fun t =>
    (({ s with
      conn := { s.conn with c2t := t.pipe }
      target := t.sock
      sent := s.sent + t.accepted.length
      toTarget := s.toTarget ++ t.accepted } : Relay).accountUpload t.ret).afterSend t.ret next

def sendAnswer : RelayEvent → Option (Option SendResult)
  | .send r => some (some r)
  | .proceed => some none
  | _ => none

def flushClient (s : Relay) (e : RelayEvent) : Option Relay :=
  (sendAnswer e).bind fun r =>
    if 0 < s.conn.t2c.len then s.sendToClient r .flushTarget
    else if r = none then some { s with pc := .flushTarget }
    else none

def flushTarget (s : Relay) (e : RelayEvent) : Option Relay :=
  (sendAnswer e).bind fun r =>
    if 0 < s.conn.c2t.len then s.sendToTarget r .readClient
    else if r = none then some { s with pc := .readClient }
    else none

def readClient (s : Relay) (e : RelayEvent) : Option Relay :=
  if s.fatalError = false ∧ s.conn.c2t.len = 0 ∧ s.conn.clientEof = false then
    match e with
    | .recv k =>
        match s.client.recv bufferSize k with
        | (.data b bs, sock) =>
            some { s with
              conn := { s.conn with c2t := ⟨write s.conn.c2t.buf 0 (b :: bs), bs.length + 1, 0⟩ }
              client := sock
              fromClient := s.fromClient ++ (b :: bs)
              pc := .sendTarget }
        | (.eof, sock) =>
            some { s with
              conn := { s.conn with clientEof := true, eofSince := s.now }
              client := sock
              pc := .readTarget }
        | (.again, sock) => some { s with client := sock, pc := .readTarget }
        | (.error _, sock) => some { s with client := sock, fatalError := true, pc := .readTarget }
    | .recvError => some { s with fatalError := true, pc := .readTarget }
    | _ => none
  else
    match e with
    | .proceed => some { s with pc := .readTarget }
    | _ => none

def sendTarget (s : Relay) (e : RelayEvent) : Option Relay :=
  (sendAnswer e).bind fun r => s.sendToTarget r .readTarget

/-- Reading from the target into the empty buffer. The end of its stream ends the connection. -/
def readTarget (s : Relay) (e : RelayEvent) : Option Relay :=
  if s.fatalError = false ∧ s.conn.t2c.len = 0 then
    match e with
    | .recv k =>
        match s.target.recv bufferSize k with
        | (.data b bs, sock) =>
            some { s with
              conn := { s.conn with t2c := ⟨write s.conn.t2c.buf 0 (b :: bs), bs.length + 1, 0⟩ }
              target := sock
              rxBytes := s.rxBytes + (bs.length + 1)
              fromTarget := s.fromTarget ++ (b :: bs)
              pc := .sendClient }
        | (.again, sock) => some { s with target := sock, pc := .markEof }
        | (_, sock) => some { s with target := sock, fatalError := true, pc := .markEof }
    | .recvError => some { s with fatalError := true, pc := .markEof }
    | _ => none
  else
    match e with
    | .proceed => some { s with pc := .markEof }
    | _ => none

def sendClient (s : Relay) (e : RelayEvent) : Option Relay :=
  (sendAnswer e).bind fun r => s.sendToClient r .markEof

def marksTarget (s : Relay) : Bool :=
  !s.fatalError && s.isTarget && s.conn.targetEofSince == 0 && s.ev.epollrdhup &&
    decide (0 ≤ s.conn.targetFd)

def markTarget (s : Relay) : Relay :=
  if s.marksTarget then { s with conn := { s.conn with targetEofSince := s.now } } else s

/-- The record of the target's EPOLLRDHUP, and, with both buffers empty, the grace period of a
client that has sent its FIN. -/
def markEof (s : Relay) (e : RelayEvent) : Option Relay :=
  match e with
  | .proceed =>
      let s := s.markTarget
      if s.fatalError then some { s with pc := .collect }
      else if s.conn.c2t.len = 0 ∧ s.conn.t2c.len = 0 then
        if s.conn.clientEof then
          if connForwardGraceExpired s.now s.conn.eofSince connFwdGraceSec then
            some { s with fatalError := true, pc := .collect }
          else some { s with pc := .ctlClient }
        else some { s with pc := .probe }
      else some { s with pc := .ctlClient }
  | _ => none

/-- With both buffers empty, `MSG_PEEK` finds the FIN of the target. -/
def probe (s : Relay) (e : RelayEvent) : Option Relay :=
  match e with
  | .peek =>
      if s.target.peek = .eof then some { s with fatalError := true, pc := .collect }
      else some { s with pc := .ctlClient }
  | .recvError => some { s with pc := .ctlClient }
  | _ => none

/-- `epoll_ctl` is called when the mask changes. -/
def ctlClient (s : Relay) (e : RelayEvent) : Option Relay :=
  if s.conn.clientEvents = s.conn.interest.1 then
    match e with
    | .proceed => some { s with pc := .ctlTarget }
    | _ => none
  else
    match e with
    | .epollCtl true =>
        some { s with conn := { s.conn with clientEvents := s.conn.interest.1 }, pc := .ctlTarget }
    | .epollCtl false => some { s with ctlOk := false, pc := .ctlTarget }
    | _ => none

def ctlTarget (s : Relay) (e : RelayEvent) : Option Relay :=
  if s.conn.targetEvents = s.conn.interest.2 then
    match e with
    | .proceed => some { s with pc := .wait }
    | _ => none
  else
    match e with
    | .epollCtl true =>
        some { s with conn := { s.conn with targetEvents := s.conn.interest.2 }, pc := .wait }
    | .epollCtl false => some { s with ctlOk := false, pc := .wait }
    | _ => none

def collect (s : Relay) (e : RelayEvent) : Option Relay :=
  match e with
  | .proceed => some { s with conn := { s.conn with closed := true }, pc := .closed }
  | _ => none

/-- A stalled client hides the FIN of the target from the handler, so the scan looks for it with
`MSG_PEEK`. -/
def scanPeek (s : Relay) (now : Time) (peekError : Bool) : Relay :=
  if s.conn.targetEofSince = 0 ∧ 0 < s.conn.t2c.len ∧ 0 ≤ s.conn.targetFd ∧ peekError = false ∧
      s.target.peek = .eof then
    { s with conn := { s.conn with targetEofSince := now } }
  else s

/-- The connection is idle, or one of its half-close grace periods is over. -/
def timedOut (s : Relay) (now : Time) : Bool :=
  idleTimeoutSec < now - s.conn.lastActive ||
    (s.conn.clientEof && connForwardGraceExpired now s.conn.eofSince connFwdGraceSec) ||
    connForwardGraceExpired now s.conn.targetEofSince connFwdGraceSec

def scan (s : Relay) (now : Time) (peekError : Bool) : Option Relay :=
  if s.pc = .wait then
    let s := s.scanPeek now peekError
    if s.timedOut now then
      some { s with conn := { s.conn with closed := true }, pc := .closed }
    else some s
  else none

def handle (s : Relay) (e : RelayEvent) : Option Relay :=
  match s.pc with
  | .wait => none
  | .flushClient => s.flushClient e
  | .flushTarget => s.flushTarget e
  | .readClient => s.readClient e
  | .sendTarget => s.sendTarget e
  | .readTarget => s.readTarget e
  | .sendClient => s.sendClient e
  | .markEof => s.markEof e
  | .probe => s.probe e
  | .ctlClient => s.ctlClient e
  | .ctlTarget => s.ctlTarget e
  | .collect => s.collect e
  | .closed => none

/-- Everything a part of the handler can do. -/
inductive Handles (s : Relay) (e : RelayEvent) : Relay → Prop
  | skipClient (hpc : s.pc = .flushClient) (hlen : s.conn.t2c.len = 0) :
      Handles s e { s with pc := .flushTarget }
  | toClient (next : RelayPc) (turn : SendTurn)
      (hpc : s.pc = .flushClient ∧ 0 < s.conn.t2c.len ∧ next = .flushTarget ∨
        s.pc = .sendClient ∧ next = .markEof)
      (hturn : TrySends s.conn.clientFd s.conn.t2c s.client turn) :
      Handles s e (({ s with
        conn := { s.conn with t2c := turn.pipe }
        client := turn.sock
        toClient := s.toClient ++ turn.accepted } : Relay).afterSend turn.ret next)
  | skipTarget (hpc : s.pc = .flushTarget) (hlen : s.conn.c2t.len = 0) :
      Handles s e { s with pc := .readClient }
  | toTarget (next : RelayPc) (turn : SendTurn)
      (hpc : s.pc = .flushTarget ∧ 0 < s.conn.c2t.len ∧ next = .readClient ∨
        s.pc = .sendTarget ∧ next = .readTarget)
      (hturn : TrySends s.conn.targetFd s.conn.c2t s.target turn) :
      Handles s e ((({ s with
        conn := { s.conn with c2t := turn.pipe }
        target := turn.sock
        sent := s.sent + turn.accepted.length
        toTarget := s.toTarget ++ turn.accepted } : Relay).accountUpload turn.ret).afterSend
          turn.ret next)
  | skipReadClient (hpc : s.pc = .readClient)
      (hskip : ¬ (s.fatalError = false ∧ s.conn.c2t.len = 0 ∧ s.conn.clientEof = false)) :
      Handles s e { s with pc := .readTarget }
  | readClientData (hpc : s.pc = .readClient)
      (hguard : s.fatalError = false ∧ s.conn.c2t.len = 0 ∧ s.conn.clientEof = false)
      (b : UInt8) (bs rest : List UInt8) (hrx : s.client.rx = b :: bs ++ rest)
      (hle : bs.length + 1 ≤ bufferSize) :
      Handles s e { s with
        conn := { s.conn with c2t := ⟨write s.conn.c2t.buf 0 (b :: bs), bs.length + 1, 0⟩ }
        client := { s.client with rx := rest }
        fromClient := s.fromClient ++ (b :: bs)
        pc := .sendTarget }
  | readClientEof (hpc : s.pc = .readClient)
      (hguard : s.fatalError = false ∧ s.conn.c2t.len = 0 ∧ s.conn.clientEof = false)
      (hrx : s.client.rx = []) (hfin : s.client.fin = true) :
      Handles s e { s with
        conn := { s.conn with clientEof := true, eofSince := s.now }
        client := { s.client with finRead := true }
        pc := .readTarget }
  | readClientAgain (hpc : s.pc = .readClient) (hrx : s.client.rx = [])
      (hfin : s.client.fin = false) :
      Handles s e { s with pc := .readTarget }
  | readClientError (hpc : s.pc = .readClient) :
      Handles s e { s with fatalError := true, pc := .readTarget }
  | skipReadTarget (hpc : s.pc = .readTarget)
      (hskip : ¬ (s.fatalError = false ∧ s.conn.t2c.len = 0)) :
      Handles s e { s with pc := .markEof }
  | readTargetData (hpc : s.pc = .readTarget) (hlen : s.conn.t2c.len = 0)
      (b : UInt8) (bs rest : List UInt8) (hrx : s.target.rx = b :: bs ++ rest)
      (hle : bs.length + 1 ≤ bufferSize) :
      Handles s e { s with
        conn := { s.conn with t2c := ⟨write s.conn.t2c.buf 0 (b :: bs), bs.length + 1, 0⟩ }
        target := { s.target with rx := rest }
        rxBytes := s.rxBytes + (bs.length + 1)
        fromTarget := s.fromTarget ++ (b :: bs)
        pc := .sendClient }
  | readTargetAgain (hpc : s.pc = .readTarget) (hrx : s.target.rx = [])
      (hfin : s.target.fin = false) :
      Handles s e { s with pc := .markEof }
  | readTargetEof (hpc : s.pc = .readTarget) :
      Handles s e { s with target := { s.target with finRead := true }, fatalError := true,
                           pc := .markEof }
  | readTargetError (hpc : s.pc = .readTarget) :
      Handles s e { s with fatalError := true, pc := .markEof }
  | markFatal (hpc : s.pc = .markEof) (hfatal : s.fatalError = true) :
      Handles s e { s.markTarget with pc := .collect }
  | markGrace (hpc : s.pc = .markEof) (hfatal : s.fatalError = false)
      (hempty : s.conn.c2t.len = 0 ∧ s.conn.t2c.len = 0) (heof : s.conn.clientEof = true)
      (hgrace : connForwardGraceExpired s.now s.conn.eofSince connFwdGraceSec = true) :
      Handles s e { s.markTarget with fatalError := true, pc := .collect }
  | markHalfClosed (hpc : s.pc = .markEof) (hfatal : s.fatalError = false)
      (hempty : s.conn.c2t.len = 0 ∧ s.conn.t2c.len = 0) (heof : s.conn.clientEof = true)
      (hgrace : connForwardGraceExpired s.now s.conn.eofSince connFwdGraceSec = false) :
      Handles s e { s.markTarget with pc := .ctlClient }
  | markProbe (hpc : s.pc = .markEof) (hfatal : s.fatalError = false)
      (hempty : s.conn.c2t.len = 0 ∧ s.conn.t2c.len = 0) (heof : s.conn.clientEof = false) :
      Handles s e { s.markTarget with pc := .probe }
  | markPending (hpc : s.pc = .markEof) (hfatal : s.fatalError = false)
      (hpending : ¬ (s.conn.c2t.len = 0 ∧ s.conn.t2c.len = 0)) :
      Handles s e { s.markTarget with pc := .ctlClient }
  | probeEof (hpc : s.pc = .probe) :
      Handles s e { s with fatalError := true, pc := .collect }
  | probeOpen (hpc : s.pc = .probe) (hpeek : s.target.peek ≠ .eof) :
      Handles s e { s with pc := .ctlClient }
  | probeError (hpc : s.pc = .probe) (he : e = .recvError) :
      Handles s e { s with pc := .ctlClient }
  | ctlClientSame (hpc : s.pc = .ctlClient)
      (hsame : s.conn.clientEvents = s.conn.interest.1) :
      Handles s e { s with pc := .ctlTarget }
  | ctlClientMod (hpc : s.pc = .ctlClient) :
      Handles s e { s with conn := { s.conn with clientEvents := s.conn.interest.1 },
                           pc := .ctlTarget }
  | ctlClientFail (hpc : s.pc = .ctlClient) :
      Handles s e { s with ctlOk := false, pc := .ctlTarget }
  | ctlTargetSame (hpc : s.pc = .ctlTarget)
      (hsame : s.conn.targetEvents = s.conn.interest.2) :
      Handles s e { s with pc := .wait }
  | ctlTargetMod (hpc : s.pc = .ctlTarget) :
      Handles s e { s with conn := { s.conn with targetEvents := s.conn.interest.2 },
                           pc := .wait }
  | ctlTargetFail (hpc : s.pc = .ctlTarget) :
      Handles s e { s with ctlOk := false, pc := .wait }
  | collect (hpc : s.pc = .collect) :
      Handles s e { s with conn := { s.conn with closed := true }, pc := .closed }

theorem flushClient_handles {s t : Relay} {e : RelayEvent} (hpc : s.pc = .flushClient)
    (h : s.flushClient e = some t) : Handles s e t := by
  obtain ⟨r, hr, h⟩ := Option.bind_eq_some_iff.mp h
  split_ifs at h with hlen hnone
  · obtain ⟨turn, hturn, rfl⟩ := Option.map_eq_some_iff.mp h
    exact .toClient _ turn (Or.inl ⟨hpc, hlen, rfl⟩) (trySendTurn_spec hturn)
  · cases h
    exact .skipClient hpc (Nat.eq_zero_of_not_pos hlen)

theorem flushTarget_handles {s t : Relay} {e : RelayEvent} (hpc : s.pc = .flushTarget)
    (h : s.flushTarget e = some t) : Handles s e t := by
  obtain ⟨r, hr, h⟩ := Option.bind_eq_some_iff.mp h
  split_ifs at h with hlen hnone
  · obtain ⟨turn, hturn, rfl⟩ := Option.map_eq_some_iff.mp h
    exact .toTarget _ turn (Or.inl ⟨hpc, hlen, rfl⟩) (trySendTurn_spec hturn)
  · cases h
    exact .skipTarget hpc (Nat.eq_zero_of_not_pos hlen)

theorem readClient_handles {s t : Relay} {e : RelayEvent} (hpc : s.pc = .readClient)
    (h : s.readClient e = some t) : Handles s e t := by
  unfold readClient at h
  by_cases hguard : s.fatalError = false ∧ s.conn.c2t.len = 0 ∧ s.conn.clientEof = false
  · rw [if_pos hguard] at h
    cases e with
    | recv k =>
        have hrecv := s.client.recv_spec (show 0 < bufferSize by decide) k
        simp only at h
        generalize s.client.recv bufferSize k = answer at h hrecv
        cases hrecv with
        | data b bs rest hrx hle =>
            cases h
            exact .readClientData hpc hguard b bs rest hrx hle
        | eof hrx hfin =>
            cases h
            exact .readClientEof hpc hguard hrx hfin
        | again hrx hfin =>
            cases h
            exact .readClientAgain hpc hrx hfin
    | recvError =>
        cases h
        exact .readClientError hpc
    | _ => cases h
  · rw [if_neg hguard] at h
    cases e <;> cases h
    exact .skipReadClient hpc hguard

theorem readTarget_handles {s t : Relay} {e : RelayEvent} (hpc : s.pc = .readTarget)
    (h : s.readTarget e = some t) : Handles s e t := by
  unfold readTarget at h
  by_cases hguard : s.fatalError = false ∧ s.conn.t2c.len = 0
  · rw [if_pos hguard] at h
    cases e with
    | recv k =>
        have hrecv := s.target.recv_spec (show 0 < bufferSize by decide) k
        simp only at h
        generalize s.target.recv bufferSize k = answer at h hrecv
        cases hrecv with
        | data b bs rest hrx hle =>
            cases h
            exact .readTargetData hpc hguard.2 b bs rest hrx hle
        | eof hrx hfin =>
            cases h
            exact .readTargetEof hpc
        | again hrx hfin =>
            cases h
            exact .readTargetAgain hpc hrx hfin
    | recvError =>
        cases h
        exact .readTargetError hpc
    | _ => cases h
  · rw [if_neg hguard] at h
    cases e <;> cases h
    exact .skipReadTarget hpc hguard

theorem markTarget_fields (s : Relay) :
    s.markTarget.fatalError = s.fatalError ∧ s.markTarget.now = s.now ∧
      s.markTarget.conn.c2t = s.conn.c2t ∧ s.markTarget.conn.t2c = s.conn.t2c ∧
      s.markTarget.conn.clientEof = s.conn.clientEof ∧
      s.markTarget.conn.eofSince = s.conn.eofSince := by
  unfold markTarget
  split <;> exact ⟨rfl, rfl, rfl, rfl, rfl, rfl⟩

theorem markEof_handles {s t : Relay} {e : RelayEvent} (hpc : s.pc = .markEof)
    (h : s.markEof e = some t) : Handles s e t := by
  obtain ⟨hfatal, hnow, hc2t, ht2c, heof, hsince⟩ := s.markTarget_fields
  cases e with
  | proceed =>
      simp only [markEof] at h
      split_ifs at h with hf hempty hclient hgrace <;> cases h <;> rw [hfatal] at hf
      · exact .markFatal hpc hf
      all_goals rw [Bool.not_eq_true] at hf; rw [hc2t, ht2c] at hempty
      · rw [heof] at hclient
        rw [hnow, hsince] at hgrace
        exact .markGrace hpc hf hempty hclient hgrace
      · rw [heof] at hclient
        rw [hnow, hsince, Bool.not_eq_true] at hgrace
        exact .markHalfClosed hpc hf hempty hclient hgrace
      · rw [heof, Bool.not_eq_true] at hclient
        exact .markProbe hpc hf hempty hclient
      · exact .markPending hpc hf hempty
  | _ => cases h

theorem probe_handles {s t : Relay} {e : RelayEvent} (hpc : s.pc = .probe)
    (h : s.probe e = some t) : Handles s e t := by
  cases e with
  | peek =>
      simp only [probe] at h
      split_ifs at h with hpeek <;> cases h
      · exact .probeEof hpc
      · exact .probeOpen hpc hpeek
  | recvError =>
      cases h
      exact .probeError hpc rfl
  | _ => cases h

theorem ctlClient_handles {s t : Relay} {e : RelayEvent} (hpc : s.pc = .ctlClient)
    (h : s.ctlClient e = some t) : Handles s e t := by
  unfold ctlClient at h
  split_ifs at h with hsame
  · cases e <;> cases h
    exact .ctlClientSame hpc hsame
  · cases e with
    | epollCtl ok =>
        cases ok <;> cases h
        · exact .ctlClientFail hpc
        · exact .ctlClientMod hpc
    | _ => cases h

theorem ctlTarget_handles {s t : Relay} {e : RelayEvent} (hpc : s.pc = .ctlTarget)
    (h : s.ctlTarget e = some t) : Handles s e t := by
  unfold ctlTarget at h
  split_ifs at h with hsame
  · cases e <;> cases h
    exact .ctlTargetSame hpc hsame
  · cases e with
    | epollCtl ok =>
        cases ok <;> cases h
        · exact .ctlTargetFail hpc
        · exact .ctlTargetMod hpc
    | _ => cases h

theorem handle_spec {s t : Relay} {e : RelayEvent} (h : s.handle e = some t) : Handles s e t := by
  unfold handle at h
  split at h
  · cases h
  · exact flushClient_handles ‹_› h
  · exact flushTarget_handles ‹_› h
  · exact readClient_handles ‹_› h
  · obtain ⟨r, hr, h⟩ := Option.bind_eq_some_iff.mp h
    obtain ⟨turn, hturn, rfl⟩ := Option.map_eq_some_iff.mp h
    exact .toTarget _ turn (Or.inr ⟨‹_›, rfl⟩) (trySendTurn_spec hturn)
  · exact readTarget_handles ‹_› h
  · obtain ⟨r, hr, h⟩ := Option.bind_eq_some_iff.mp h
    obtain ⟨turn, hturn, rfl⟩ := Option.map_eq_some_iff.mp h
    exact .toClient _ turn (Or.inr ⟨‹_›, rfl⟩) (trySendTurn_spec hturn)
  · exact markEof_handles ‹_› h
  · exact probe_handles ‹_› h
  · exact ctlClient_handles ‹_› h
  · exact ctlTarget_handles ‹_› h
  · cases e <;> cases h
    exact .collect ‹_›
  · cases h

theorem wakeup_eq_some {s t : Relay} {now : Time} {isTarget : Bool} {ev : EpollEvents} :
    s.wakeup now isTarget ev = some t ↔
      (s.pc = .wait ∧ (ev.epollrdhup → (if isTarget then s.target else s.client).fin)) ∧
        s.startHandler now isTarget ev = t := by
  rw [wakeup, Option.ite_none_right_eq_some, Option.some_inj]

/-- Of a connection the scan's `MSG_PEEK` sets nothing but `target_eof_since`. -/
theorem scanPeek_same (s : Relay) (now : Time) (peekError : Bool) :
    ∃ since, s.scanPeek now peekError =
      { s with conn := { s.conn with targetEofSince := since } } := by
  unfold scanPeek
  split
  · exact ⟨now, rfl⟩
  · exact ⟨s.conn.targetEofSince, rfl⟩

theorem scan_eq_some {s t : Relay} {now : Time} {peekError : Bool}
    (h : s.scan now peekError = some t) :
    s.pc = .wait ∧ (t = s.scanPeek now peekError ∨
      t = { s.scanPeek now peekError with
        conn := { (s.scanPeek now peekError).conn with closed := true }, pc := .closed }) := by
  unfold scan at h
  split_ifs at h with hpc
  simp only at h
  split_ifs at h <;> cases h
  · exact ⟨hpc, Or.inr rfl⟩
  · exact ⟨hpc, Or.inl rfl⟩

end Relay

def relayStep : Steps.Step Relay RelayEvent := fun s e =>
  match e with
  | .wakeup now isTarget ev => s.wakeup now isTarget ev
  | .scan now peekError => s.scan now peekError
  | .kernel .client e => (s.client.kernelStep e).map fun sock => { s with client := sock }
  | .kernel .target e => (s.target.kernelStep e).map fun sock => { s with target := sock }
  | e => s.handle e

theorem Relay.exists_scan {s : Relay} (hpc : s.pc = .wait) (now : Time) (peekError : Bool) :
    ∃ t, relayStep s (.scan now peekError) = some t := by
  simp only [relayStep, scan, if_pos hpc]
  split <;> exact ⟨_, rfl⟩

end FiveGProxy
