import FiveGProxy.Library.Steps
import FiveGProxy.Protocol.Request
import Mathlib.Logic.Function.Basic

/-!
# The handshake

`handle_handshake_fd` reads the SOCKS5 greeting, the credentials and the request of a client, and
goes on to the connector or to a UDP session. `socks5_server_set_auth` may be called at any time.
Both take `g_auth_lock` around their accesses to the credentials; one step is one access under the
lock, or one `recv` with what the thread does until the next. Whether a `recv` times out and whether
the quota of connections is exhausted is left open. The replies are not part of it.
-/

namespace FiveGProxy

open CString Steps

/-! ### The credentials -/

/-- A `char [256]`. -/
structure CharBuf where
  cells : List UInt8
  length : cells.length = 256

namespace CharBuf

/-- `{0}`. -/
def zero : CharBuf := ⟨List.replicate 256 0, List.length_replicate⟩

/-- `buf[i] = '\0'`. -/
def terminate (b : CharBuf) (i : ℕ) : CharBuf :=
  ⟨b.cells.set i 0, by rw [List.length_set, b.length]⟩

/-- `strncpy(buf, s, sizeof(buf) - 1)`. -/
def strncpy (b : CharBuf) (s : CStr UInt8) : CharBuf :=
  ⟨CString.strncpy b.cells s.bytes 255, by
    rw [length_strncpy (by rw [b.length]; decide), b.length]⟩

/-- `memcpy(buf, src, sizeof(buf) - 1)`. -/
def memcpy (b src : CharBuf) : CharBuf :=
  ⟨src.cells.take 255 ++ b.cells.drop 255, by
    rw [List.length_append, List.length_take, List.length_drop, b.length, src.length]
    rfl⟩

end CharBuf

/-- The arguments of a call of `socks5_server_set_auth`; `none` is `NULL`. -/
structure AuthArgs where
  user : Option (CStr UInt8)
  pass : Option (CStr UInt8)

/-- `g_auth_enabled`, `g_auth_user` and `g_auth_pass`. -/
structure AuthGlobals where
  enabled : Bool
  user : CharBuf
  pass : CharBuf

inductive AuthStore
  | disable
  | clearUser
  | clearPass
  | user (s : CStr UInt8)
  | pass (s : CStr UInt8)
  | endUser
  | endPass
  | enable

def AuthStore.apply (g : AuthGlobals) : AuthStore → AuthGlobals
  | disable => { g with enabled := false }
  | clearUser => { g with user := g.user.terminate 0 }
  | clearPass => { g with pass := g.pass.terminate 0 }
  | user s => { g with user := g.user.strncpy s }
  | pass s => { g with pass := g.pass.strncpy s }
  | endUser => { g with user := g.user.terminate 255 }
  | endPass => { g with pass := g.pass.terminate 255 }
  | enable => { g with enabled := true }

/-- The section of `socks5_server_set_auth` under the lock. -/
def setAuthStores (a : AuthArgs) : List AuthStore :=
  match a.user, a.pass with
  | some u, some p =>
      if u.bytes = [] ∨ p.bytes = [] then [.disable, .clearUser, .clearPass]
      else [.user u, .pass p, .endUser, .endPass, .enable]
  | none, _ | some _, none => [.disable, .clearUser, .clearPass]

/-! ### The threads -/

inductive SetAuthPc
  | idle
  | lock (a : AuthArgs)
  | store (todo : List AuthStore)

/-- The `host` that goes to the connector: a domain, as the C string that it is, or what `inet_ntop`
makes of an address. -/
inductive TargetHost
  | name (s : List UInt8)
  | literal (atyp : UInt8) (addr : List UInt8)
  deriving DecidableEq

/-- Where `handle_handshake_fd` is, with the local variables that it still uses. -/
inductive NegotiationPc
  | version
  | methods (nmethods : UInt8)
  | authLock (methods : List UInt8)
  | authMethod (methods : List UInt8)
  | authUser (methods : List UInt8)
  | authPass (methods : List UInt8) (user : CharBuf)
  | authUnlock (methods : List UInt8) (desired : UInt8) (user pass : CharBuf)
  | choose (methods : List UInt8) (desired : UInt8) (user pass : CharBuf)
  | subVersion (user pass : CharBuf)
  | subUser (user pass : CharBuf) (ulen : UInt8)
  | subPlen (user pass : CharBuf) (ulen : UInt8) (userBuf : List UInt8)
  | subPass (user pass : CharBuf) (ulen : UInt8) (userBuf : List UInt8) (plen : UInt8)
  | check (user pass : CharBuf) (ulen : UInt8) (userBuf : List UInt8) (plen : UInt8)
      (passBuf : List UInt8)
  | request
  | domainLen (cmd : UInt8)
  | addr (cmd atyp : UInt8) (addrLen : ℕ)
  | port (cmd : UInt8) (host : TargetHost)
  | quota (host : TargetHost) (port : ℕ)
  | connect (host : TargetHost) (port : ℕ)
  | session (cmd : UInt8)
  | closed

/-- A client: the bytes that it sends, how many of them have been received, and where its handshake
is. -/
structure Client where
  sent : List UInt8
  pos : ℕ
  pc : NegotiationPc

inductive LockHolder
  | setter (c : ℕ)
  | client (h : ℕ)
  deriving DecidableEq

structure Negotiation where
  auth : AuthGlobals
  lock : Option LockHolder
  setter : ℕ → SetAuthPc
  /-- `none` when no client has been accepted under this number yet. -/
  client : ℕ → Option Client

/-- `ok` says whether the `recv` of the step is in time, and whether there is quota. -/
inductive NegotiationEvent
  | accept (h : ℕ) (sent : List UInt8)
  | client (h : ℕ) (ok : Bool)
  | setAuth (c : ℕ) (a : AuthArgs)
  | setter (c : ℕ)

def Negotiation.init : Negotiation where
  auth := { enabled := false, user := .zero, pass := .zero }
  lock := none
  setter := fun _ => .idle
  client := fun _ => none

/-- `recv(client_fd, buf, n, MSG_WAITALL)`; with fewer than `n` bytes the handshake fails. -/
def Client.recv (k : Client) (n : ℕ) (ok : Bool) (next : List UInt8 → NegotiationPc) : Client :=
  if ok = true ∧ k.pos + n ≤ k.sent.length then
    { k with pos := k.pos + n, pc := next ((k.sent.drop k.pos).take n) }
  else { k with pc := .closed }

def Client.goto (k : Client) (pc : NegotiationPc) : Client := { k with pc := pc }

def targetHost (atyp : UInt8) (buf : List UInt8) : TargetHost :=
  if atyp = socks5AtypDomain then .name (content (buf ++ [0])) else .literal atyp buf

/-- The steps in which only the thread's own data is read; `none` in the others. -/
def Client.step (k : Client) (ok : Bool) : Option Client :=
  match k.pc with
  | .version => some (k.recv 2 ok fun buf =>
      if buf.getD 0 0 ≠ 0x05 then .closed
      else if (buf.getD 1 0).toNat < 1 then .closed
      else .methods (buf.getD 1 0))
  | .methods nmethods => some (k.recv nmethods.toNat ok .authLock)
  | .choose methods desired user pass =>
      if socks5MethodOffered methods methods.length desired then
        some (k.goto (if desired = 0x02 then .subVersion user pass else .request))
      else some (k.goto .closed)
  | .subVersion user pass => some (k.recv 2 ok fun buf =>
      if buf.getD 0 0 ≠ 0x01 then .closed
      else if buf.getD 1 0 = 0 then .closed
      else .subUser user pass (buf.getD 1 0))
  | .subUser user pass ulen => some (k.recv ulen.toNat ok fun buf => .subPlen user pass ulen buf)
  | .subPlen user pass ulen userBuf => some (k.recv 1 ok fun buf =>
      if 0 < (buf.getD 0 0).toNat then .subPass user pass ulen userBuf (buf.getD 0 0)
      else .check user pass ulen userBuf (buf.getD 0 0) [])
  | .subPass user pass ulen userBuf plen =>
      some (k.recv plen.toNat ok fun buf => .check user pass ulen userBuf plen buf)
  | .check user pass ulen userBuf plen passBuf =>
      if socks5CheckCredentials userBuf ulen passBuf plen user.cells pass.cells then
        some (k.goto .request)
      else some (k.goto .closed)
  | .request => some (k.recv 4 ok fun buf =>
      if socks5ValidateRequestHeader buf = false then .closed
      else if buf.getD 3 0 = socks5AtypDomain then .domainLen (buf.getD 1 0)
      else
        match socks5RequestAddrLen (buf.getD 3 0) 0 with
        | none => .closed
        | some n => .addr (buf.getD 1 0) (buf.getD 3 0) n)
  | .domainLen cmd => some (k.recv 1 ok fun buf =>
      match socks5RequestAddrLen socks5AtypDomain (buf.getD 0 0) with
      | none => .closed
      | some n => .addr cmd socks5AtypDomain n)
  | .addr cmd atyp addrLen => some (k.recv addrLen ok fun buf => .port cmd (targetHost atyp buf))
  | .port cmd host => some (k.recv 2 ok fun buf =>
      if cmd = 0x01 then .quota host ((buf.getD 0 0).toNat <<< 8 ||| (buf.getD 1 0).toNat)
      else if socks5IsSupportedCmd cmd then .session cmd
      else .closed)
  | .quota host port => some (k.goto (if ok then .connect host port else .closed))
  | .authLock _ | .authMethod _ | .authUser _ | .authPass .. | .authUnlock .. | .connect .. | .session _
  | .closed => none

namespace Negotiation

def setClient (st : Negotiation) (h : ℕ) (k : Client) : Negotiation :=
  { st with client := Function.update st.client h (some k) }

def setSetter (st : Negotiation) (c : ℕ) (pc : SetAuthPc) : Negotiation :=
  { st with setter := Function.update st.setter c pc }

/-- One step of a handshake. The snapshot of the credentials is taken under the lock. -/
def clientStep (st : Negotiation) (h : ℕ) (ok : Bool) : Option Negotiation :=
  match st.client h with
  | none => none
  | some k =>
      match k.pc with
      | .authLock methods =>
          if st.lock = none then
            some { st.setClient h (k.goto (.authMethod methods)) with lock := some (.client h) }
          else none
      | .authMethod methods =>
          some (st.setClient h (k.goto
            (if st.auth.enabled then .authUser methods
            else .authUnlock methods 0x00 .zero .zero)))
      | .authUser methods =>
          some (st.setClient h (k.goto (.authPass methods (CharBuf.zero.memcpy st.auth.user))))
      | .authPass methods user =>
          some (st.setClient h (k.goto
            (.authUnlock methods 0x02 user (CharBuf.zero.memcpy st.auth.pass))))
      | .authUnlock methods desired user pass =>
          some { st.setClient h (k.goto (.choose methods desired user pass)) with lock := none }
      | _ => (k.step ok).map (st.setClient h)

/-- One step of a call of `socks5_server_set_auth`. -/
def setterStep (st : Negotiation) (c : ℕ) : Option Negotiation :=
  match st.setter c with
  | .idle => none
  | .lock a =>
      if st.lock = none then
        some { st.setSetter c (.store (setAuthStores a)) with lock := some (.setter c) }
      else none
  | .store (x :: todo) => some { st.setSetter c (.store todo) with auth := x.apply st.auth }
  | .store [] => some { st.setSetter c .idle with lock := none }

end Negotiation

def negotiationStep (st : Negotiation) : NegotiationEvent → Option Negotiation
  | .accept h sent =>
      match st.client h with
      | none => some (st.setClient h ⟨sent, 0, .version⟩)
      | some _ => none
  | .client h ok => st.clientStep h ok
  | .setAuth c a =>
      match st.setter c with
      | .idle => some (st.setSetter c (.lock a))
      | .lock _ | .store _ => none
  | .setter c => st.setterStep c

end FiveGProxy
