import FiveGProxy.Kernel.Polled
import FiveGProxy.UdpSession.Masks

/-!
# The event handlers of a session, call by call

The handlers of `udp_worker_loop` for one session with command 0x03 or 0x04, cut at their system
calls, with the kernel's side of the sockets. Each part is a handler of `UdpSession.Session` run on
the answer of one call. Whether `udp_route_frame` finds an address is left open: the part that calls
`sendto` may be skipped.

`toRemote` and `fromRemote` count the bytes `sendto` accepted and `recvfrom` returned on the 5G
socket, `moved` the bytes and datagrams that went through any socket of the session. The handlers
read none of the three.
-/

namespace FiveGProxy

open Memory

inductive UdpRole where
  | client
  | localUdp
  | remote
  deriving DecidableEq

/-- Where the worker is in the handling of an event. -/
inductive UdpPc where
  | wait
  | ctrl
  | flush
  | readClient
  | route (c : RouteCall)
  | recvLocal
  | recvRemote
  | updateClient
  | updateRemote
  | close
  | closed
  deriving DecidableEq

/-- The session, its sockets and the locals of the handler. `clientCtlOk` and `remoteCtlOk` say that
the `epoll_ctl` calls of the last handler succeeded. `txBytes` is what the session has added to
`g_udp_tx_bytes`; `Session.rxBytes` is what it has added to `g_udp_rx_bytes`. -/
structure UdpConn extends Masked where
  client : PolledStream
  localUdp : PolledDatagrams Datagram
  remote : PolledDatagrams Datagram
  peer : SrcAddr
  pc : UdpPc
  role : UdpRole
  now : Time
  ev : EpollEvents
  clientCtlOk : Bool
  remoteCtlOk : Bool
  txBytes : ℕ
  toRemote : ℕ
  fromRemote : ℕ
  moved : ℕ

/-- What the network does to the sockets. -/
inductive UdpNetwork where
  | clientArrive (bytes : List UInt8)
  | clientFin
  | clientRoom (n : ℕ)
  | clientErr (e : ℕ)
  | clientHup
  | localArrive (d : Datagram)
  | localErr (e : ℕ)
  | localHup
  | remoteArrive (d : Datagram)
  | remoteErr (e : ℕ)
  | remoteHup
  deriving DecidableEq

/-- What can happen next: an event of `epoll_wait`, the scan, a frame whose name was resolved
meanwhile, a part of the handler with the answer of its system call, or the network. -/
inductive UdpConnEvent where
  | wakeup (now : Time) (role : UdpRole)
  | scan (now : Time) (pendCount : ℕ)
  | replay (payload : List UInt8) (r : SendResult)
  | proceed
  | recv (k : ℕ)
  | send (k : ℕ)
  | recvfrom
  | sendto (r : SendResult)
  | clientCtl (ok : Bool)
  | remoteCtl (ok : Bool)
  | network (n : UdpNetwork)
  deriving DecidableEq

/-- The interest mask of the socket for the local client, which never changes. -/
def localEvents : EpollEvents := ⟨true, false, false, false, false⟩

def PolledDatagrams.recvfrom (s : PolledDatagrams Datagram) :
    RecvfromResult × PolledDatagrams Datagram :=
  match s.err with
  | some e => (.error e, { s with err := none })
  | none =>
      match s.queue with
      | [] => (.again, s)
      | d :: ds => (.data d, { s with queue := ds })

/-- The bytes a `recvfrom` of at most `limit` bytes returns. -/
def RecvfromResult.bytes (limit : ℕ) : RecvfromResult → ℕ
  | .data d => (d.payload.take limit).length
  | .again | .error _ => 0

def RecvfromResult.isData : RecvfromResult → Bool
  | .data _ => true
  | .again | .error _ => false

def SendResult.isSent : SendResult → Bool
  | .sent _ => true
  | .again | .error _ => false

/-- A session as `udp_start_session` registers it: `localUdpFd` is -1 for command 0x04. -/
def UdpConn.udpStartSession (inBuf outBuf lenBytes : ℕ → UInt8) (localUdpFd : ℤ) (remoteUdpFd : ℕ)
    (peer : SrcAddr) (now : Time) : UdpConn where
  session := { udpStartTcpSession inBuf outBuf lenBytes now with localUdpFd := localUdpFd }
  remoteUdpFd := remoteUdpFd
  clientEvents :=
    if 0 ≤ localUdpFd then ⟨false, false, true, false, false⟩ else ⟨true, false, true, false, false⟩
  remoteEvents := ⟨true, false, false, false, false⟩
  client := .connected
  localUdp := .bound
  remote := .bound
  peer := peer
  pc := .wait
  role := .client
  now := now
  ev := ⟨false, false, false, false, false⟩
  clientCtlOk := true
  remoteCtlOk := true
  txBytes := 0
  toRemote := 0
  fromRemote := 0
  moved := 0

/-- One turn of the loop of `udp_local_event`, up to the call of `udp_route_frame`. -/
def udpLocalTurn (peer : SrcAddr) (s : Session) (d : Datagram) : Session :=
  let body := d.payload.take bufferSize
  let s := { s with inBuf := write s.inBuf 0 body }
  if body.length ≤ 3 then s
  else
    match socks5UdpParse s.inBuf body.length with
    | none => s
    | some _ =>
        if sameIp d.src peer then
          { s with
            clientSrc := some d.src
            routed := s.routed ++ (udpFrameCall s.inBuf body.length).toList }
        else s

/-- How many bytes `recvfrom` asks for on the 5G socket. -/
def recvfromLimit (s : Session) : ℕ :=
  if 0 ≤ s.localUdpFd then bufferSize - 22 else bufferSize - (2 + 22)

namespace UdpConn

/-- What `epoll_wait` reports for a descriptor of the session. -/
def reported (s : UdpConn) : UdpRole → EpollEvents
  | .client => s.clientEvents.reported s.client.ready
  | .localUdp => localEvents.reported s.localUdp.ready
  | .remote => s.remoteEvents.reported s.remote.ready

def returned (s : UdpConn) : Ret → UdpConn
  | .ok => { s with pc := .updateClient }
  | .close => { s with pc := .close }

/-- The handler fails with the fields of `closeWith`. -/
def fails (s : UdpConn) (kind : UdpCloseKind) (reason : String) (errno : ℕ) : UdpConn :=
  { s with session := s.session.closeWith kind reason errno, pc := .close }

/-- The start of `udp_ctrl_event`. -/
def enterCtrl (s : UdpConn) : UdpConn :=
  if s.ev.epollerr || s.ev.epollhup || s.ev.epollrdhup then
    s.fails .peer "0x03 控制連線收到 ERR/HUP/RDHUP" 0
  else if s.ev.epollin then { s with pc := .ctrl }
  else s.returned .ok

/-- The place behind `if (!(ev & EPOLLIN)) return 0` in `udp_client_data_event`. -/
def enterRead (s : UdpConn) : UdpConn :=
  if s.ev.epollin then { s with pc := .readClient } else s.returned .ok

def enter (s : UdpConn) : UdpConn :=
  match s.role with
  | .client =>
      if 0 ≤ s.session.localUdpFd then s.enterCtrl
      else if 0 < s.session.outLen then { s with pc := .flush }
      else s.enterRead
  | .localUdp => { s with pc := .recvLocal }
  | .remote => { s with pc := .recvRemote }

/-- The start of the handler for an event that passed `udp_event_check_slot`. -/
def startHandler (s : UdpConn) (now : Time) (role : UdpRole) : UdpConn :=
  { s with
    session := { s.session with lastActive := now }
    role := role
    now := now
    ev := s.reported role
    clientCtlOk := true
    remoteCtlOk := true }.enter

def wakeup (s : UdpConn) (now : Time) (role : UdpRole) : Option UdpConn :=
  if s.pc = .wait ∧ (s.reported role).any = true ∧
      (role = .localUdp → 0 ≤ s.session.localUdpFd) then
    some (s.startHandler now role)
  else none

def ctrl (s : UdpConn) (e : UdpConnEvent) : Option UdpConn :=
  match e with
  | .recv k =>
      match s.client.recv 256 k with
      | (.data _ _, sock) => some ({ s with client := sock, moved := s.moved + 1 }.returned .ok)
      | (.eof, sock) =>
          some ({ s with client := sock }.fails .peer "0x03 控制連線被客戶端關閉 (EOF)" 0)
      | (.again, sock) => some ({ s with client := sock }.returned .ok)
      | (.error e, sock) => some ({ s with client := sock }.fails .io "0x03 控制連線 recv 失敗" e)
  | _ => none

/-- The place behind `udp_flush_out`. -/
def afterFlush (s : UdpConn) : UdpConn :=
  match s.role with
  | .client => s.enterRead
  | .localUdp | .remote => { s with pc := .recvRemote }

/-- A turn of `udp_flush_out`, which goes on after an accepted part. -/
def flush (s : UdpConn) (e : UdpConnEvent) : Option UdpConn :=
  match e with
  | .send k =>
      if s.session.outOff < s.session.outLen then
        let answer := s.client.send (s.session.outLen - s.session.outOff) k
        (udpFlushOut s.session [answer.1]).map fun p =>
          let t := { s with
            session := p.1
            client := answer.2
            moved := s.moved + (p.1.sent.length - s.session.sent.length) }
          match p.2.1 with
          | .close => t.returned .close
          | .ok => if answer.1.isSent && 0 < p.1.outLen then t else t.afterFlush
      else none
  | .proceed =>
      if s.session.outOff < s.session.outLen then none
      else (udpFlushOut s.session []).map fun p => { s with session := p.1 }.afterFlush
  | _ => none

/-- A frame of the client that is complete goes to `udp_route_frame`, then `next` follows. -/
def routeNext (s : UdpConn) (t : Session) (next : UdpPc) : UdpPc :=
  match t.routed.drop s.session.routed.length with
  | c :: _ => .route c
  | [] => next

/-- How many bytes the next `recv` asks for. -/
def recvLimit (s : UdpConn) : ℕ :=
  if s.session.lenGot < 2 then 2 - s.session.lenGot else s.session.frameExpect - s.session.frameGot

/-- A turn of the reading loop of `udp_client_data_event`. -/
def readClient (s : UdpConn) (e : UdpConnEvent) : Option UdpConn :=
  if s.session.lenGot < 2 ∨ s.session.frameGot < s.session.frameExpect then
    match e with
    | .recv k =>
        let answer := s.client.recv s.recvLimit k
        (clientDataTurn s.now s.session answer.1).map fun p =>
          let t := { s with
            session := p.1
            client := answer.2
            moved := s.moved + (p.1.received.length - s.session.received.length) }
          match p.2 with
          | some ret => t.returned ret
          | none => { t with pc := s.routeNext p.1 .readClient }
    | _ => none
  else
    match e with
    | .proceed =>
        some { s with
          session := finishFrame s.now s.session
          pc := s.routeNext (finishFrame s.now s.session) .readClient }
    | _ => none

/-- `udp_send_5g`. A failure of `sendto` is only logged. -/
def udpSend5g (s : UdpConn) (payload : List UInt8) (r : SendResult) : UdpConn :=
  if s.remoteUdpFd < 0 ∨ payload = [] then s
  else
    let answer := s.remote.sendto r
    let s := { s with
      remote := answer.2
      toRemote := s.toRemote + answer.1.accepted payload.length
      moved := s.moved + if answer.1.isSent then 1 else 0 }
    match answer.1 with
    | .sent k => { s with txBytes := s.txBytes + SendResult.count k payload.length }
    | .again | .error _ => s

/-- The handler goes on when `udp_route_frame` has returned. -/
def afterRoute (s : UdpConn) : UdpConn :=
  match s.role with
  | .client => { s with pc := .readClient }
  | .localUdp | .remote => { s with pc := .recvLocal }

/-- `udp_route_frame`: the frame is sent, or there is no address for it yet. -/
def route (s : UdpConn) (c : RouteCall) (e : UdpConnEvent) : Option UdpConn :=
  match e with
  | .sendto r => some (s.udpSend5g c.payload r).afterRoute
  | .proceed => some s.afterRoute
  | _ => none

def recvLocal (s : UdpConn) (e : UdpConnEvent) : Option UdpConn :=
  match e with
  | .recvfrom =>
      match s.localUdp.recvfrom with
      | (.again, sock) => some ({ s with localUdp := sock }.returned .ok)
      | (.error e, sock) =>
          some ({ s with localUdp := sock }.fails .io "0x03 local UDP recvfrom 失敗" e)
      | (.data d, sock) =>
          some { s with
            session := udpLocalTurn s.peer s.session d
            localUdp := sock
            moved := s.moved + 1
            pc := s.routeNext (udpLocalTurn s.peer s.session d) .recvLocal }
  | _ => none

/-- A turn of the loop of `udp_remote_event`, up to the first `send` of a new frame. The `sendto` to
the local client takes a pending error of its socket away. -/
def recvRemote (s : UdpConn) (e : UdpConnEvent) : Option UdpConn :=
  if s.session.localUdpFd < 0 ∧ 0 < s.session.outLen then
    match e with
    | .proceed => some (s.returned .ok)
    | _ => none
  else
    match e with
    | .recvfrom =>
        let answer := s.remote.recvfrom
        (udpRemoteEvent [answer.1] [] s.session).map fun p =>
          let t := { s with
            session := p.1
            remote := answer.2
            localUdp :=
              if p.1.localSent.length = s.session.localSent.length then s.localUdp
              else { s.localUdp with err := none }
            fromRemote := s.fromRemote + answer.1.bytes (recvfromLimit s.session)
            moved := s.moved + if answer.1.isData then 1 else 0 }
          if answer.1.isData then
            if s.session.localUdpFd < 0 ∧ 0 < p.1.outLen then { t with pc := .flush } else t
          else t.returned p.2
    | _ => none

def updateClient (s : UdpConn) (e : UdpConnEvent) : Option UdpConn :=
  if s.clientEvents = s.session.clientInterest then
    match e with
    | .proceed => some { s with pc := .updateRemote }
    | _ => none
  else
    match e with
    | .clientCtl ok =>
        some { s with
          toMasked := s.toMasked.armClient ok
          clientCtlOk := ok
          pc := .updateRemote }
    | _ => none

def updateRemote (s : UdpConn) (e : UdpConnEvent) : Option UdpConn :=
  if s.session.localUdpFd < 0 ∧ 0 ≤ s.remoteUdpFd ∧ s.remoteEvents ≠ s.session.remoteInterest then
    match e with
    | .remoteCtl ok =>
        some { s with toMasked := s.toMasked.armRemote ok, remoteCtlOk := ok, pc := .wait }
    | _ => none
  else
    match e with
    | .proceed => some { s with pc := .wait }
    | _ => none

/-- A session whose handler returned -1 is marked and put on the garbage list. -/
def close (s : UdpConn) (e : UdpConnEvent) : Option UdpConn :=
  match e with
  | .proceed => some { s with session := { s.session with closed := true }, pc := .closed }
  | _ => none

def handle (s : UdpConn) (e : UdpConnEvent) : Option UdpConn :=
  match s.pc with
  | .wait => none
  | .ctrl => s.ctrl e
  | .flush => s.flush e
  | .readClient => s.readClient e
  | .route c => s.route c e
  | .recvLocal => s.recvLocal e
  | .recvRemote => s.recvRemote e
  | .updateClient => s.updateClient e
  | .updateRemote => s.updateRemote e
  | .close => s.close e
  | .closed => none

def scan (s : UdpConn) (now : Time) (pendCount : ℕ) : Option UdpConn :=
  if s.pc = .wait then
    let m := s.toMasked.idleScan now pendCount
    some { s with toMasked := m, pc := if m.session.closed then .closed else .wait }
  else none

/-- `udp_dns_flush_pending` sends a frame that has waited for its name. -/
def replay (s : UdpConn) (payload : List UInt8) (r : SendResult) : Option UdpConn :=
  if s.pc = .wait then some (s.udpSend5g payload r) else none

def network (s : UdpConn) : UdpNetwork → Option UdpConn
  | .clientArrive bytes =>
      if s.client.fin then none
      else some { s with client := { s.client with rx := s.client.rx ++ bytes } }
  | .clientFin => some { s with client := { s.client with fin := true } }
  | .clientRoom n => some { s with client := { s.client with room := n } }
  | .clientErr e => some { s with client := { s.client with err := some e } }
  | .clientHup => some { s with client := { s.client with hup := true } }
  | .localArrive d =>
      some { s with localUdp := { s.localUdp with queue := s.localUdp.queue ++ [d] } }
  | .localErr e => some { s with localUdp := { s.localUdp with err := some e } }
  | .localHup => some { s with localUdp := { s.localUdp with hup := true } }
  | .remoteArrive d => some { s with remote := { s.remote with queue := s.remote.queue ++ [d] } }
  | .remoteErr e => some { s with remote := { s.remote with err := some e } }
  | .remoteHup => some { s with remote := { s.remote with hup := true } }

end UdpConn

def udpConnStep : Steps.Step UdpConn UdpConnEvent := fun s e =>
  match e with
  | .wakeup now role => s.wakeup now role
  | .scan now pendCount => s.scan now pendCount
  | .replay payload r => s.replay payload r
  | .network n => s.network n
  | e => s.handle e

def UdpConnEvent.ofHandler : UdpConnEvent → Bool
  | .wakeup _ _ | .scan _ _ | .replay _ _ | .network _ => false
  | _ => true

theorem udpConnStep_ofHandler {s t : UdpConn} {e : UdpConnEvent} (he : e.ofHandler = true)
    (ht : udpConnStep s e = some t) : s.handle e = some t := by
  cases e with
  | wakeup now role => cases he
  | scan now pendCount => cases he
  | replay payload r => cases he
  | network n => cases he
  | _ => exact ht

/-- A session on fresh sockets; `localUdpFd` is -1 for command 0x04. -/
def freshSession (localUdpFd : ℤ) : UdpConn :=
  .udpStartSession (fun _ => 0) (fun _ => 0) (fun _ => 0) localUdpFd 6
    (.inet (octets 127 0 0 1) (0, 1)) 7

end FiveGProxy
