import FiveGProxy.Kernel.Socket
import FiveGProxy.Protocol.Datagram
import FiveGProxy.Library.Steps

/-!
# The UDP session

`Session` holds the fields of `udp_conn_t` that the handlers of a relay session read and write,
and, behind them, the record of what crossed its sockets: the bytes `recv` returned from the
client, the calls of `udp_route_frame`, the bytes `send` accepted on the client socket, the
datagrams `recvfrom` returned from the 5G socket and the datagrams sent to the local relay
client. The record is only written. Handlers return `none` when they access a buffer outside
its allocation.
-/

namespace FiveGProxy

open Memory

inductive UdpCloseKind where
  | none
  | idle
  | peer
  | io
  | proto
  | resource
  | shutdown
  deriving DecidableEq

/-- The source address `recvfrom` stores into `src6`, by its family. -/
inductive SrcAddr where
  | inet (addr : Vector UInt8 4) (port : UInt8 × UInt8)
  | inet6 (addr : Vector UInt8 16) (port : UInt8 × UInt8)
  deriving DecidableEq

/-- A datagram as `recvfrom` returns it. -/
structure Datagram where
  src : SrcAddr
  payload : List UInt8
  deriving DecidableEq

/-- The answer to `recvfrom` on the 5G socket; a longer payload is cut to the request. -/
inductive RecvfromResult where
  | data (d : Datagram)
  | again
  | error (errno : ℕ)
  deriving DecidableEq

structure Session where
  inBuf : ℕ → UInt8
  outBuf : ℕ → UInt8
  lenBytes : ℕ → UInt8
  lenGot : ℕ
  frameExpect : ℕ
  frameGot : ℕ
  outLen : ℕ
  outOff : ℕ
  localUdpFd : ℤ
  clientSrc : Option SrcAddr
  lastActive : Time
  closed : Bool
  closeKind : UdpCloseKind
  closeReason : Option String
  closeErrno : ℕ
  rxBytes : ℕ
  received : List UInt8
  routed : List RouteCall
  sent : List UInt8
  arrived : List Datagram
  localSent : List (List UInt8)

/-- The size of `in_buf` and of `out_buf`. -/
def udpBufCap : ℕ := bufferSize + 64

/-- The return value of a handler: 0, or -1 for a session to be closed. -/
inductive Ret where
  | ok
  | close
  deriving DecidableEq

def Session.closeWith (s : Session) (kind : UdpCloseKind) (reason : String) (errno : ℕ) :
    Session :=
  { s with closeKind := kind, closeReason := some reason, closeErrno := errno }

/-- A session with command 0x04 as `udp_start_session` registers it. The buffers come from
`malloc` and hold anything. -/
def udpStartTcpSession (inBuf outBuf lenBytes : ℕ → UInt8) (now : Time) : Session where
  inBuf := inBuf
  outBuf := outBuf
  lenBytes := lenBytes
  lenGot := 0
  frameExpect := 0
  frameGot := 0
  outLen := 0
  outOff := 0
  localUdpFd := -1
  clientSrc := none
  lastActive := now
  closed := false
  closeKind := .none
  closeReason := none
  closeErrno := 0
  rxBytes := 0
  received := []
  routed := []
  sent := []
  arrived := []
  localSent := []

/-- Empties the outgoing frame as far as the client socket accepts it. The third component is
the answers that were not needed. -/
def udpFlushOut (s : Session) (rs : List SendResult) : Option (Session × Ret × List SendResult) :=
  if s.outOff < s.outLen then
    if s.outLen ≤ udpBufCap then
      match rs with
      | [] => some (s, .ok, [])
      | .again :: rs => some (s, .ok, rs)
      | .error e :: rs =>
          some (s.closeWith .io "0x04 出向 frame send() 到 client 失敗" e, .close, rs)
      | .sent k :: rs =>
          let n := SendResult.count k (s.outLen - s.outOff)
          udpFlushOut
            { s with
              outOff := s.outOff + n
              sent := s.sent ++ slice s.outBuf s.outOff n } rs
    else none
  else some ({ s with outLen := 0, outOff := 0 }, .ok, rs)
termination_by structural rs

def Session.storeLenBytes (s : Session) (bytes : List UInt8) : Session :=
  { s with
    lenBytes := write s.lenBytes s.lenGot bytes
    lenGot := s.lenGot + bytes.length
    received := s.received ++ bytes }

def Session.storeBody (s : Session) (bytes : List UInt8) : Session :=
  { s with
    inBuf := write s.inBuf s.frameGot bytes
    frameGot := s.frameGot + bytes.length
    received := s.received ++ bytes }

/-- The end of `while (u->len_got < 2)`: a complete length field is checked. The second component
is the return value when the handler returns. -/
def checkLenField (s : Session) : Session × Option Ret :=
  if s.lenGot < 2 then (s, none)
  else
    match socks5UdpTcpFrameLen (s.lenBytes 0, s.lenBytes 1) bufferSize with
    | none => (s.closeWith .proto "0x04 frame 長度欄違規（超出 BUFFER_SIZE）" 0, some .close)
    | some dlen => ({ s with frameExpect := dlen, frameGot := 0 }, none)

/-- The `recv` of `while (u->len_got < 2)` and what follows it up to the next `recv`. -/
def recvLenField (s : Session) : RecvResult → Session × Option Ret
  | .again => (s, some .ok)
  | .eof => (s.closeWith .peer "0x04 客戶端關閉（讀長度欄時 EOF）" 0, some .close)
  | .error e => (s.closeWith .io "0x04 讀長度欄 recv 失敗" e, some .close)
  | .data b bs => checkLenField (s.storeLenBytes (RecvResult.bytes b bs (2 - s.lenGot)))

/-- The `recv` of `while (u->frame_got < u->frame_expect)`. -/
def recvFrameBody (s : Session) (r : RecvResult) : Option (Session × Option Ret) :=
  if s.frameExpect ≤ udpBufCap then
    match r with
    | .again => some (s, some .ok)
    | .eof => some (s.closeWith .peer "0x04 客戶端關閉（讀 frame body 時 EOF）" 0, some .close)
    | .error e => some (s.closeWith .io "0x04 讀 frame body recv 失敗" e, some .close)
    | .data b bs =>
        some (s.storeBody (RecvResult.bytes b bs (s.frameExpect - s.frameGot)), none)
  else none

/-- A complete datagram is parsed and routed, and the progress counters are reset. -/
def finishFrame (now : Time) (s : Session) : Session :=
  if s.frameGot < s.frameExpect then s
  else
    { s with
      routed := s.routed ++ (udpFrameCall s.inBuf s.frameExpect).toList
      lenGot := 0
      frameExpect := 0
      frameGot := 0
      lastActive := now }

/-- One turn of the reading loop: the next `recv`, whichever of the two inner loops it is in,
and what is done with its result. -/
def clientDataTurn (now : Time) (s : Session) (r : RecvResult) : Option (Session × Option Ret) :=
  if s.lenGot < 2 then some (recvLenField s r)
  else (recvFrameBody s r).map fun p => (finishFrame now p.1, p.2)

/-- The reading loop. When the answers are used up the kernel has no more to give. -/
def clientDataLoop (now : Time) : Session → List RecvResult → Option (Session × Ret)
  | s, [] => some (s, .ok)
  | s, r :: rs =>
      match clientDataTurn now s r with
      | none => none
      | some (s, some ret) => some (s, ret)
      | some (s, none) => clientDataLoop now s rs

def udpClientDataEvent (now : Time) (ev : EpollEvents) (sends : List SendResult)
    (recvs : List RecvResult) (s : Session) : Option (Session × Ret) :=
  (if 0 < s.outLen then udpFlushOut s sends else some (s, .ok, sends)).bind fun
    | (s, .close, _) => some (s, .close)
    | (s, .ok, _) =>
        if ev.epollin then
          clientDataLoop now (if s.lenGot < 2 then s else finishFrame now s) recvs
        else some (s, .ok)

/-- `IN6_IS_ADDR_V4MAPPED`. -/
def isV4Mapped (addr : Vector UInt8 16) : Bool :=
  addr.toList.take 12 == [0, 0, 0, 0, 0, 0, 0, 0, 0, 0, 0xff, 0xff]

/-- The address and the flag `is_v6` that both branches of `udp_remote_event` compute. A
v4-mapped source is given as IPv4. -/
def SrcAddr.ipAddr : SrcAddr → IpAddr
  | .inet addr _ => .v4 addr
  | .inet6 addr _ =>
      if isV4Mapped addr then .v4 ⟨#[addr[12], addr[13], addr[14], addr[15]], rfl⟩ else .v6 addr

def SrcAddr.port : SrcAddr → UInt8 × UInt8
  | .inet _ port => port
  | .inet6 _ port => port

/-- Where the header of a datagram begins when its payload is at `off`. -/
def headerStart (addr : IpAddr) (off : ℕ) : ℕ :=
  match addr with
  | .v4 _ => off - 10
  | .v6 _ => off - 22

/-- Builds the outgoing frame around a datagram whose payload `recvfrom` has put at `off`: the
header and the length field are stored backwards in front of it, and the frame is moved to the
start of the buffer. -/
def frameDatagram (s : Session) (d : Datagram) : Option Session :=
  let off := 2 + 22
  let hdr := socks5UdpEncode d.src.ipAddr d.src.port
  let start := off - hdr.length
  let dlen := d.payload.length + hdr.length
  if headerStart d.src.ipAddr off + hdr.length ≤ udpBufCap ∧ start - 2 + (dlen + 2) ≤ udpBufCap then
    let buf := write s.outBuf off d.payload
    let buf := write buf (headerStart d.src.ipAddr off) hdr
    let buf := write buf (start - 2) [(lenField dlen).1]
    let buf := write buf (start - 1) [(lenField dlen).2]
    some { s with
      rxBytes := s.rxBytes + d.payload.length
      arrived := s.arrived ++ [d]
      outLen := dlen + 2
      outOff := 0
      outBuf := if start - 2 ≠ 0 then write buf 0 (slice buf (start - 2) (dlen + 2)) else buf }
  else none

/-- The branch of `udp_remote_event` for a session with command 0x04: 5G to client frames. -/
def remoteToTcp : Session → List RecvfromResult → List SendResult → Option (Session × Ret)
  | s, [], _ => some (s, .ok)
  | s, r :: rs, ss =>
      if 0 < s.outLen then some (s, .ok)
      else if bufferSize ≤ udpBufCap then
        match r with
        | .again => some (s, .ok)
        | .error e => some (s.closeWith .io "0x04 5G remote recvfrom 失敗" e, .close)
        | .data d =>
            let d : Datagram := ⟨d.src, d.payload.take (bufferSize - (2 + 22))⟩
            if d.payload = [] then remoteToTcp s rs ss
            else
              (frameDatagram s d).bind fun s =>
                match udpFlushOut s ss with
                | none => none
                | some (s, .close, _) => some (s, .close)
                | some (s, .ok, ss) => remoteToTcp s rs ss
      else none

/-- The branch of `udp_remote_event` for a session with command 0x03: 5G to the local relay
client. Whether `sendto` succeeds is ignored by the source. -/
def remoteToLocal : Session → List RecvfromResult → Option (Session × Ret)
  | s, [] => some (s, .ok)
  | s, r :: rs =>
      if bufferSize ≤ udpBufCap then
        match r with
        | .again => some (s, .ok)
        | .error e => some (s.closeWith .io "0x03 5G remote recvfrom 失敗" e, .close)
        | .data d =>
            let off := 22
            let payload := d.payload.take (bufferSize - off)
            if payload = [] then remoteToLocal s rs
            else
              let s := { s with
                inBuf := write s.inBuf off payload
                rxBytes := s.rxBytes + payload.length }
              match s.clientSrc with
              | none => remoteToLocal s rs
              | some _ =>
                  let hdr := socks5UdpEncode d.src.ipAddr d.src.port
                  let buf := write s.inBuf (headerStart d.src.ipAddr off) hdr
                  remoteToLocal
                    { s with
                      inBuf := buf
                      localSent := s.localSent ++
                        [slice buf (off - hdr.length) (payload.length + hdr.length)] } rs
      else none

def udpRemoteEvent (froms : List RecvfromResult) (sends : List SendResult) (s : Session) :
    Option (Session × Ret) :=
  if 0 ≤ s.localUdpFd then remoteToLocal s froms else remoteToTcp s froms sends

/-- An event of a session with command 0x04, with everything the kernel answers while it is
handled. -/
inductive SessionEvent where
  | client (now : Time) (ev : EpollEvents) (sends : List SendResult) (recvs : List RecvResult)
  | remote (now : Time) (froms : List RecvfromResult) (sends : List SendResult)

def udpDispatch (s : Session) : SessionEvent → Option (Session × Ret)
  | .client now ev sends recvs => udpClientDataEvent now ev sends recvs { s with lastActive := now }
  | .remote now froms sends => udpRemoteEvent froms sends { s with lastActive := now }

/-- The part of `udp_worker_loop` for an event of a session with command 0x04. A closed session
is skipped; a handler that returns -1 closes it. `none` is an access outside a buffer. -/
def udpTcpSessionStep : Steps.Step Session SessionEvent := fun s e =>
  if s.closed then some s
  else (udpDispatch s e).map fun p => if p.2 = .close then { p.1 with closed := true } else p.1

end FiveGProxy
