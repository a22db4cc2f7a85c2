import FiveGProxy.Handshake.Auth
import FiveGProxy.Library.Memory

/-!
# Receiving the handshake

`handle_handshake_fd` up to the request, as the sequence of `recv`s that it is. One buffer takes most
of the fields, one after the other; `do_auth_check` has a buffer for each of its two strings. A `recv`
that asks for more than its buffer holds is an `overflow`.
-/

namespace FiveGProxy

open CString Memory

/-- What a handshake has received and sent, and `buf`. -/
structure Exchange where
  /-- What still arrives before the stream ends, fails or times out. -/
  incoming : List UInt8
  consumed : ℕ
  sent : List (List UInt8)
  buf : ℕ → UInt8

/-- `sizeof(buf)`. -/
def handshakeBufSize : ℕ := 1024

/-- `sizeof(user_buf)`, `sizeof(pass_buf)` and `sizeof(host)`. -/
def stringBufSize : ℕ := 256

inductive Reading (α : Type)
  | overflow
  | err (x : Exchange)
  | ok (a : α) (x : Exchange)

namespace Reading

variable {α β : Type}

def bind (r : Reading α) (next : α → Exchange → Reading β) : Reading β :=
  match r with
  | overflow => overflow
  | err x => err x
  | ok a x => next a x

theorem bind_eq_ok {r : Reading α} {next : α → Exchange → Reading β} {b : β} {y : Exchange} :
    r.bind next = .ok b y ↔ ∃ a x, r = .ok a x ∧ next a x = .ok b y := by
  cases r with
  | overflow => simp [bind]
  | err x => simp [bind]
  | ok a x => simp [bind]

theorem bind_of_ok {r : Reading α} {next : α → Exchange → Reading β} {a : α} {x : Exchange}
    (h : r = .ok a x) : r.bind next = next a x := by
  rw [h]
  rfl

theorem bind_ne_overflow {r : Reading α} {next : α → Exchange → Reading β} (hr : r ≠ .overflow)
    (hnext : ∀ a x, r = .ok a x → next a x ≠ .overflow) : r.bind next ≠ .overflow := by
  cases r with
  | overflow => exact absurd rfl hr
  | err x => nofun
  | ok a x => exact hnext a x rfl

end Reading

namespace Exchange

/-- `recv(client_fd, dst, n, MSG_WAITALL)` into a buffer of `size` bytes, and `goto err` when it
returns less. -/
def recvInto (x : Exchange) (size : ℕ) (dst : ℕ → UInt8) (n : ℕ) : Reading (ℕ → UInt8) :=
  if size < n then .overflow
  else if x.incoming.length < n then
    .err { x with incoming := [], consumed := x.consumed + x.incoming.length }
  else
    .ok (write dst 0 (x.incoming.take n))
      { x with incoming := x.incoming.drop n, consumed := x.consumed + n }

def recv (x : Exchange) (n : ℕ) : Reading Unit :=
  (x.recvInto handshakeBufSize x.buf n).bind fun buf y => .ok () { y with buf := buf }

def send (x : Exchange) (bytes : List UInt8) : Exchange := { x with sent := x.sent ++ [bytes] }

end Exchange

/-- The two buffers on the stack of `do_auth_check`, before anything is stored in them. -/
structure AuthStack where
  userBuf : ℕ → UInt8
  passBuf : ℕ → UInt8

def doAuthCheck (stack : AuthStack) (x : Exchange) (authUser authPass : CharBuf) : Reading Unit :=
  (x.recv 2).bind fun _ x =>
    if x.buf 0 ≠ 0x01 then .err x
    else
      let ulen := x.buf 1
      if ulen = 0 ∨ 255 < ulen.toNat then .err x
      else
        (x.recvInto stringBufSize stack.userBuf ulen.toNat).bind fun userBuf x =>
          (x.recv 1).bind fun _ x =>
            let plen := x.buf 0
            if 255 < plen.toNat then .err x
            else
              (if 0 < plen.toNat then x.recvInto stringBufSize stack.passBuf plen.toNat
                else .ok stack.passBuf x).bind fun passBuf x =>
                if socks5CheckCredentials (slice userBuf 0 stringBufSize) ulen
                    (slice passBuf 0 stringBufSize) plen authUser.cells authPass.cells then
                  .ok () (x.send [0x01, 0x00])
                else .err (x.send [0x01, 0x01])

/-- The greeting; the result is `nmethods`, and the methods are in `buf`. -/
def recvMethods (x : Exchange) : Reading UInt8 :=
  (x.recv 2).bind fun _ x =>
    if x.buf 0 ≠ 0x05 then .err x
    else
      let nmethods := x.buf 1
      if nmethods.toNat < 1 ∨ 255 < nmethods.toNat then .err x
      else (x.recv nmethods.toNat).bind fun _ x => .ok nmethods x

/-- The choice of the method by the snapshot `g` of the credentials. -/
def chooseMethod (g : AuthGlobals) (stack : AuthStack) (x : Exchange) (nmethods : UInt8) :
    Reading Unit :=
  let desiredMethod : UInt8 := if g.enabled then 0x02 else 0x00
  if socks5MethodOffered (slice x.buf 0 nmethods.toNat) nmethods.toNat desiredMethod then
    if desiredMethod = 0x02 then
      doAuthCheck stack (x.send [0x05, 0x02]) (CharBuf.zero.memcpy g.user) (CharBuf.zero.memcpy g.pass)
    else .ok () (x.send [0x05, 0x00])
  else .err (x.send [0x05, 0xff])

/-- `host` is filled in from the address. -/
def recvHost (x : Exchange) (atyp : UInt8) : Reading TargetHost :=
  if atyp = socks5AtypDomain then
    (x.recv 1).bind fun _ x =>
      match socks5RequestAddrLen atyp (x.buf 0) with
      | none => .err x
      | some addrLen =>
          (x.recv addrLen).bind fun _ x =>
            -- memcpy to host, and host[addr_len] = '\0'
            if addrLen < stringBufSize then .ok (targetHost atyp (slice x.buf 0 addrLen)) x
            else .overflow
  else
    match socks5RequestAddrLen atyp 0 with
    | none => .err x
    | some addrLen =>
        (x.recv addrLen).bind fun _ x => .ok (targetHost atyp (slice x.buf 0 addrLen)) x

/-- What a client asks for: the connector is called for the host and the port, or
`udp_start_session` with the command. -/
inductive Request
  | connect (host : TargetHost) (port : ℕ)
  | session (cmd : UInt8)
  deriving DecidableEq

def recvRequest (x : Exchange) : Reading Request :=
  (x.recv 4).bind fun _ x =>
    if socks5ValidateRequestHeader (slice x.buf 0 4) = false then .err x
    else
      let cmd := x.buf 1
      (recvHost x (x.buf 3)).bind fun host x =>
        (x.recv 2).bind fun _ x =>
          let port := (x.buf 0).toNat <<< 8 ||| (x.buf 1).toNat
          if cmd = 0x01 then .ok (.connect host port) x
          else if socks5IsSupportedCmd cmd then .ok (.session cmd) x
          else .err x

/-- `handle_handshake_fd` up to the request. -/
def negotiate (g : AuthGlobals) (stack : AuthStack) (x : Exchange) : Reading Request :=
  (recvMethods x).bind fun nmethods x =>
    (chooseMethod g stack x nmethods).bind fun _ x => recvRequest x

/-! ### The grammar -/

/-- `05 n m1 .. mn` with the required method among the `m`s. -/
def Greeting (method : UInt8) (l : List UInt8) : Prop :=
  ∃ n ms, l = 0x05 :: n :: ms ∧ ms.length = n.toNat ∧ 1 ≤ n.toNat ∧ method ∈ ms

/-- `01 ulen user plen pass`. -/
def Login (user pass l : List UInt8) : Prop :=
  ∃ ulen plen, l = 0x01 :: ulen :: user ++ plen :: pass ∧ user.length = ulen.toNat ∧
    1 ≤ ulen.toNat ∧ pass.length = plen.toNat

/-- The address of a request, with what the connector is given for it. -/
inductive Address : UInt8 → List UInt8 → TargetHost → Prop
  | v4 (addr : List UInt8) (h : addr.length = 4) :
      Address socks5AtypIpv4 addr (.literal socks5AtypIpv4 addr)
  | v6 (addr : List UInt8) (h : addr.length = 16) :
      Address socks5AtypIpv6 addr (.literal socks5AtypIpv6 addr)
  | domain (len : UInt8) (name : List UInt8) (h : name.length = len.toNat) (hne : 1 ≤ len.toNat) :
      Address socks5AtypDomain (len :: name) (.name (content (name ++ [0])))

def Request.Calls (cmd : UInt8) (host : TargetHost) (port : ℕ) : Request → Prop
  | connect h p => cmd = 0x01 ∧ h = host ∧ p = port
  | session c => c = cmd ∧ (cmd = 0x03 ∨ cmd = 0x04)

/-- `05 cmd 00 atyp addr port`. -/
def Asks (r : Request) (l : List UInt8) : Prop :=
  ∃ cmd atyp addr host hi lo, l = 0x05 :: cmd :: 0x00 :: atyp :: addr ++ [hi, lo] ∧
    Address atyp addr host ∧ r.Calls cmd host (hi.toNat * 256 + lo.toNat)

/-- The method that is required under the credentials `pair`. -/
def requiredMethod : Option (List UInt8 × List UInt8) → UInt8
  | some _ => 0x02
  | none => 0x00

def LoggedIn (l : List UInt8) : Option (List UInt8 × List UInt8) → Prop
  | some (user, pass) => Login user pass l
  | none => l = []

def methodReplies : Option (List UInt8 × List UInt8) → List (List UInt8)
  | some _ => [[0x05, 0x02], [0x01, 0x00]]
  | none => [[0x05, 0x00]]

/-- A whole handshake under the credentials `pair`, up to the last byte of the request. -/
def Handshake (pair : Option (List UInt8 × List UInt8)) (r : Request) (l : List UInt8) : Prop :=
  ∃ greeting login request, l = greeting ++ login ++ request ∧
    Greeting (requiredMethod pair) greeting ∧ LoggedIn login pair ∧ Asks r request

/-! ### One `recv` -/

/-- Between `x` and `y` exactly `l` is received and `replies` are sent. -/
structure Reads (x : Exchange) (l : List UInt8) (replies : List (List UInt8)) (y : Exchange) :
    Prop where
  incoming : x.incoming = l ++ y.incoming
  consumed : y.consumed = x.consumed + l.length
  sent : y.sent = x.sent ++ replies

variable {x y z : Exchange} {l l' : List UInt8} {r r' : List (List UInt8)}

theorem Reads.trans (h : Reads x l r y) (h' : Reads y l' r' z) : Reads x (l ++ l') (r ++ r') z where
  incoming := by rw [h.incoming, h'.incoming, List.append_assoc]
  consumed := by rw [h'.consumed, h.consumed, List.length_append, Nat.add_assoc]
  sent := by rw [h'.sent, h.sent, List.append_assoc]

theorem Reads.send (h : Reads x l r y) (bytes : List UInt8) : Reads x l (r ++ [bytes]) (y.send bytes) where
  incoming := h.incoming
  consumed := h.consumed
  sent := by rw [Exchange.send, h.sent, List.append_assoc]

theorem Reads.refl (x : Exchange) : Reads x [] [] x := ⟨rfl, rfl, (List.append_nil _).symm⟩

theorem Reads.rest (h : Reads x l r y) (hx : x.incoming = l ++ l') : y.incoming = l' :=
  List.append_cancel_left (h.incoming.symm.trans hx)

theorem recvInto_of_ok {size n : ℕ} {dst b : ℕ → UInt8} (h : x.recvInto size dst n = .ok b y) :
    ∃ l, l.length = n ∧ Reads x l [] y ∧ slice b 0 n = l ∧ y.buf = x.buf := by
  unfold Exchange.recvInto at h
  split at h
  case isTrue => cases h
  case isFalse =>
    split at h
    case isTrue => cases h
    case isFalse hroom =>
      cases h
      have hlen : (x.incoming.take n).length = n := by
        rw [List.length_take]
        omega
      refine ⟨x.incoming.take n, hlen, ⟨?_, ?_, ?_⟩, ?_, rfl⟩
      · exact (List.take_append_drop n x.incoming).symm
      · rw [hlen]
      · exact (List.append_nil _).symm
      · have hself := slice_write_self dst 0 (x.incoming.take n)
        rwa [hlen] at hself

theorem recvInto_of_incoming {size n : ℕ} (dst : ℕ → UInt8) (hsize : n ≤ size) (hl : l.length = n)
    (hx : x.incoming = l ++ l') :
    ∃ b y, x.recvInto size dst n = .ok b y ∧ Reads x l [] y ∧ slice b 0 n = l := by
  have hlen : ¬x.incoming.length < n := by
    rw [hx, List.length_append]
    omega
  have hok : ∃ b y, x.recvInto size dst n = .ok b y := by
    rw [Exchange.recvInto, if_neg (Nat.not_lt.mpr hsize), if_neg hlen]
    exact ⟨_, _, rfl⟩
  obtain ⟨b, y, hby⟩ := hok
  obtain ⟨l₁, hl₁, hreads, hslice, -⟩ := recvInto_of_ok hby
  have heq : l = l₁ := by
    have hsplit := hx.symm.trans hreads.incoming
    exact (List.append_inj hsplit (hl.trans hl₁.symm)).1
  exact ⟨b, y, hby, heq ▸ hreads, heq ▸ hslice⟩

theorem recvInto_ne_overflow {size n : ℕ} {dst : ℕ → UInt8} (h : n ≤ size) :
    x.recvInto size dst n ≠ .overflow := by
  rw [Exchange.recvInto, if_neg (Nat.not_lt.mpr h)]
  split <;> nofun

theorem recv_of_ok {n : ℕ} (h : x.recv n = .ok () y) :
    ∃ l, l.length = n ∧ Reads x l [] y ∧ slice y.buf 0 n = l := by
  obtain ⟨b, z, hz, hy⟩ := Reading.bind_eq_ok.mp h
  obtain ⟨l, hl, hreads, hslice, -⟩ := recvInto_of_ok hz
  cases hy
  exact ⟨l, hl, ⟨hreads.incoming, hreads.consumed, hreads.sent⟩, hslice⟩

theorem recv_of_incoming {n : ℕ} (hn : n ≤ handshakeBufSize) (hl : l.length = n)
    (hx : x.incoming = l ++ l') :
    ∃ y, x.recv n = .ok () y ∧ Reads x l [] y ∧ slice y.buf 0 n = l := by
  obtain ⟨b, y, hby, hreads, hslice⟩ := recvInto_of_incoming x.buf hn hl hx
  refine ⟨{ y with buf := b }, ?_, ⟨hreads.incoming, hreads.consumed, hreads.sent⟩, hslice⟩
  rw [Exchange.recv, Reading.bind_of_ok hby]

theorem recv_ne_overflow {n : ℕ} (h : n ≤ handshakeBufSize) : x.recv n ≠ .overflow :=
  Reading.bind_ne_overflow (recvInto_ne_overflow h) nofun

theorem toNat_le_handshakeBufSize (b : UInt8) : b.toNat ≤ handshakeBufSize :=
  b.toNat_lt.le.trans (by decide)

theorem toNat_le_stringBufSize (b : UInt8) : b.toNat ≤ stringBufSize := b.toNat_lt.le

end FiveGProxy
