import FiveGProxy.Handshake.Exchange
import FiveGProxy.Library.Ledger
import FiveGProxy.UdpSession.Session

/-!
# Setting up a connection

`handle_handshake_fd` behind the request, `handoff_to_worker`, `udp_start_session` and the two
finalizers, as far as they take resources, give them back and answer the client. How the fallible
steps turn out is an `Outcomes`. The functions return what they do, in order.
-/

namespace FiveGProxy

open Ledger

/-- `MAX_CONCURRENT_CONNS`. -/
def maxConcurrentConns : ℕ := 1000

/-- `client_fd`; `target_fd` or `remote_udp_fd`; `local_udp_fd`. -/
inductive Descriptor
  | client
  | egress
  | relay
  deriving DecidableEq

inductive Resource
  | fd (d : Descriptor)
  /-- The Java socket behind `egress`. -/
  | javaSocket
  /-- `c2t_buf` or `in_buf`. -/
  | inBuf
  /-- `t2c_buf` or `out_buf`. -/
  | outBuf
  | slot
  /-- One unit of `g_conn_count`. -/
  | quota
  /-- A place in the list of a worker. -/
  | link (w : ℕ)
  /-- A registration with the epoll instance of the worker. -/
  | watch (d : Descriptor)
  deriving DecidableEq

inductive Effect
  | op (o : Op Resource)
  /-- `send` on `client_fd`. -/
  | send (bytes : List UInt8)
  | requestJava5gSocket (host : TargetHost) (port : ℕ) (isUdp : Bool)
  | udpStartSession (cmd : UInt8)
  /-- `registered = 1`. -/
  | register
  deriving DecidableEq

abbrev acquire (r : Resource) : Effect := .op (.acquire r)

abbrev release (r : Resource) : Effect := .op (.release r)

/-- How the fallible steps turn out. -/
structure Outcomes where
  /-- `g_conn_count` before the `fetch_add`. -/
  connCount : ℕ
  /-- `request_java_5g_socket` returns a descriptor. -/
  connector : Bool
  slotAcquire : Bool
  inBuf : Bool
  outBuf : Bool
  socketV6 : Bool
  socketV4 : Bool
  /-- The worker of the connection. -/
  widx : ℕ
  stopping : Bool
  epollAdd : Descriptor → Bool
  /-- The address of the server in `getsockname(client_fd)`, and the port of the relay socket. -/
  clientName : Option SrcAddr
  relayPort : UInt8 × UInt8

/-- The fields of a slot by which the finalizers know what to give back. -/
structure SlotFields where
  clientFd : Bool
  egressFd : Bool
  relayFd : Bool
  inBuf : Bool
  outBuf : Bool
  linked : Bool
  watched : Descriptor → Bool
  widx : ℕ
  refs : ℤ
  finalized : Bool
  closed : Bool

def socks5EncodeReply (rep : UInt8) (addr : IpAddr) (port : UInt8 × UInt8) : List UInt8 :=
  0x05 :: rep :: 0x00 :: encodeAddrPort addr port

/-- The reply of `send_zero_reply`. -/
def zeroReply (rep : UInt8) : List UInt8 :=
  socks5EncodeReply rep (.v4 (Vector.replicate 4 0)) (0, 0)

def associateReply (o : Outcomes) : List UInt8 :=
  match o.clientName with
  | some name => socks5EncodeReply 0x00 name.ipAddr o.relayPort
  | none => zeroReply 0x00

namespace SlotFields

/-- `close` also takes the descriptor out of the epoll instance. -/
def closing (c : SlotFields) (d : Descriptor) : List Resource :=
  .fd d :: if c.watched d then [.watch d] else []

/-- What `conn_finalize` gives back, in order. -/
def connOwned (c : SlotFields) : List Resource :=
  (if c.linked then [.link c.widx] else []) ++
  (if c.clientFd then c.closing .client else []) ++
  (if c.egressFd then .javaSocket :: c.closing .egress else []) ++
  (if c.inBuf then [.inBuf] else []) ++
  (if c.outBuf then [.outBuf] else []) ++
  [.quota, .slot]

def connFinalize (c : SlotFields) : List Effect :=
  if c.finalized then [] else c.connOwned.map release

def connUnref (c : SlotFields) : List Effect := if c.refs = 1 then c.connFinalize else []

/-- What `udp_conn_finalize` gives back, in order. -/
def udpConnOwned (c : SlotFields) : List Resource :=
  (if c.linked then [.link c.widx] else []) ++
  (if c.clientFd then c.closing .client else []) ++
  (if c.relayFd then c.closing .relay else []) ++
  (if c.egressFd then .javaSocket :: c.closing .egress else []) ++
  (if c.inBuf then [.inBuf] else []) ++
  (if c.outBuf then [.outBuf] else []) ++
  [.quota, .slot]

def udpConnFinalize (c : SlotFields) : List Effect :=
  if c.finalized then [] else c.udpConnOwned.map release

def udpConnUnref (c : SlotFields) : List Effect := if c.refs = 1 then c.udpConnFinalize else []

/-- The slot after the two calls of `malloc`. -/
def prepared (o : Outcomes) (egressFd : Bool) : SlotFields where
  clientFd := true
  egressFd := egressFd
  relayFd := false
  inBuf := o.inBuf
  outBuf := o.outBuf
  linked := false
  watched := fun _ => false
  widx := o.widx
  refs := 1
  finalized := false
  closed := false

/-- The calls of `epoll_ctl` under the lock, for the descriptors in order. When one fails, the
connection is taken out of the list again. -/
def addAll (unref : SlotFields → List Effect) (o : Outcomes) :
    List Descriptor → SlotFields → List Effect
  | [], _ => [.register]
  | d :: ds, c =>
      if o.epollAdd d then
        acquire (.watch d) ::
          addAll unref o ds { c with watched := Function.update c.watched d true }
      else release (.link c.widx) :: unref { c with linked := false, closed := true }

/-- The section under `list_lock`. -/
def enlist (unref : SlotFields → List Effect) (o : Outcomes) (ds : List Descriptor)
    (c : SlotFields) : List Effect :=
  if o.stopping then unref c
  else acquire (.link c.widx) :: addAll unref o ds { c with linked := true }

end SlotFields

open SlotFields

/-- The buffers that `malloc` returns. -/
def mallocs (o : Outcomes) : List Effect :=
  (if o.inBuf then [acquire .inBuf] else []) ++ if o.outBuf then [acquire .outBuf] else []

def Outcomes.handoffToWorker (o : Outcomes) : List Effect :=
  if o.slotAcquire then
    acquire .slot :: mallocs o ++
      if o.inBuf && o.outBuf then enlist connUnref o [.client, .egress] (prepared o true)
      else connUnref (prepared o true)
  else [release .quota, release .javaSocket, release (.fd .client), release (.fd .egress)]

/-- `udp_start_session` behind the relay socket: the socket on the 5G side, and the reply `resp`. -/
def udpConnect (o : Outcomes) (resp : List UInt8) (ds : List Descriptor) (c : SlotFields) :
    List Effect :=
  .requestJava5gSocket (.name []) 0 true ::
    if o.connector then
      acquire .javaSocket :: acquire (.fd .egress) :: .send resp ::
        enlist udpConnUnref o ds { c with egressFd := true }
    else .send (zeroReply 0x04) :: udpConnUnref c

def udpStartSession (o : Outcomes) (cmd : UInt8) : List Effect :=
  acquire .quota ::
    if maxConcurrentConns ≤ o.connCount then
      [release .quota, .send (zeroReply 0x01), release (.fd .client)]
    else if o.slotAcquire then
      acquire .slot :: mallocs o ++
        if o.inBuf && o.outBuf then
          if cmd = 0x03 then
            if o.socketV6 || o.socketV4 then
              acquire (.fd .relay) ::
                udpConnect o (associateReply o) [.client, .relay, .egress]
                  { prepared o false with relayFd := true }
            else .send (zeroReply 0x01) :: udpConnUnref (prepared o false)
          else udpConnect o (zeroReply 0x00) [.client, .egress] (prepared o false)
        else udpConnUnref (prepared o false)
    else [release .quota, .send (zeroReply 0x01), release (.fd .client)]

/-- `handle_handshake_fd` behind the request. -/
def serve (o : Outcomes) : Request → List Effect
  | .connect host port =>
      acquire .quota ::
        if maxConcurrentConns ≤ o.connCount then [release .quota, release (.fd .client)]
        else
          .requestJava5gSocket host port false ::
            if o.connector then
              acquire .javaSocket :: acquire (.fd .egress) :: .send (zeroReply 0x00) ::
                o.handoffToWorker
            else [release .quota, .send (zeroReply 0x04), release (.fd .client)]
  | .session cmd => .udpStartSession cmd :: udpStartSession o cmd

/-- `none` when something is written outside a buffer. -/
def handleHandshakeFd (g : AuthGlobals) (stack : AuthStack) (o : Outcomes) (incoming : List UInt8)
    (buf : ℕ → UInt8) : Option (List Effect) :=
  match negotiate g stack ⟨incoming, 0, [], buf⟩ with
  | .overflow => none
  | .err x => some (x.sent.map .send ++ [release (.fd .client)])
  | .ok r x => some (x.sent.map .send ++ serve o r)

def ops (log : List Effect) : List (Op Resource) :=
  log.filterMap fun
    | .op o => some o
    | _ => none

def sends (log : List Effect) : List (List UInt8) :=
  log.filterMap fun
    | .send bytes => some bytes
    | _ => none

def served (log : List Effect) : List Request :=
  log.filterMap fun
    | .requestJava5gSocket host port false => some (.connect host port)
    | .udpStartSession cmd => some (.session cmd)
    | _ => none

end FiveGProxy
