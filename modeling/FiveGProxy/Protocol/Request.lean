import FiveGProxy.Library.CString
import FiveGProxy.Protocol.Datagram

/-!
# Method negotiation, credentials and the request header

The functions of `socks5_protocol.c` that the handshake calls. The bytes that were received are
lists, and a `const char *` is the buffer behind it.
-/

namespace FiveGProxy

open CString

def socks5MethodOffered (methods : List UInt8) (nmethods : ℕ) (desiredMethod : UInt8) : Bool :=
  (methods.take nmethods).any (· == desiredMethod)

/-- The cast of `strlen` to `unsigned char` is the one of the code. -/
def socks5CheckCredentials (user : List UInt8) (ulen : UInt8) (pass : List UInt8) (plen : UInt8)
    (expectedUser expectedPass : List UInt8) : Bool :=
  let userOk := (ulen == UInt8.ofNat (strlen expectedUser)) && memEq user expectedUser ulen.toNat
  let passOk := (plen == UInt8.ofNat (strlen expectedPass)) && memEq pass expectedPass plen.toNat
  userOk && passOk

def socks5ValidateRequestHeader (req : List UInt8) : Bool :=
  req.getD 0 0 == 0x05 && req.getD 2 0 == 0x00 &&
    (req.getD 3 0 == socks5AtypIpv4 || req.getD 3 0 == socks5AtypDomain ||
      req.getD 3 0 == socks5AtypIpv6)

def socks5IsSupportedCmd (cmd : UInt8) : Bool := cmd == 0x01 || cmd == 0x03 || cmd == 0x04

/-- `none` is the return value `-1`. -/
def socks5RequestAddrLen (atyp firstByte : UInt8) : Option ℕ :=
  if atyp = socks5AtypIpv4 then some 4
  else if atyp = socks5AtypIpv6 then some 16
  else if atyp = socks5AtypDomain then
    if 1 ≤ firstByte.toNat then some firstByte.toNat else none
  else none

theorem socks5MethodOffered_iff {methods : List UInt8} {n : ℕ} {m : UInt8}
    (h : methods.length = n) : socks5MethodOffered methods n m = true ↔ m ∈ methods := by
  rw [socks5MethodOffered, List.take_of_length_le (Nat.le_of_eq h), List.any_eq_true]
  constructor
  · rintro ⟨x, hx, heq⟩
    rwa [← beq_iff_eq.mp heq]
  · exact fun hm => ⟨m, hm, beq_self_eq_true m⟩

theorem lengthMatches_iff {s buf : List UInt8} {len : UInt8} (hs : s.length = len.toNat)
    (hbuf : strlen buf < 256) :
    ((len == UInt8.ofNat (strlen buf)) && memEq s buf len.toNat) = true ↔ s = content buf := by
  rw [Bool.and_eq_true, beq_iff_eq]
  constructor
  · rintro ⟨rfl, hmem⟩
    have hlen : (UInt8.ofNat (strlen buf)).toNat = strlen buf := by
      rw [UInt8.toNat_ofNat', Nat.mod_eq_of_lt hbuf]
    rw [hlen] at hmem hs
    exact (memEq_strlen hs).mp hmem
  · intro heq
    have hlen : len.toNat = strlen buf := by rw [← hs, heq, strlen]
    refine ⟨?_, ?_⟩
    · rw [← hlen, UInt8.ofNat_toNat]
    · rw [hlen]
      exact (memEq_strlen (hs.trans hlen)).mpr heq

/-- Credentials are accepted when both strings are the expected ones, lengths included. -/
theorem socks5CheckCredentials_iff {user pass expectedUser expectedPass : List UInt8}
    {ulen plen : UInt8} (huser : user.length = ulen.toNat) (hpass : pass.length = plen.toNat)
    (hu : strlen expectedUser < 256) (hp : strlen expectedPass < 256) :
    socks5CheckCredentials user ulen pass plen expectedUser expectedPass = true ↔
      user = content expectedUser ∧ pass = content expectedPass := by
  unfold socks5CheckCredentials
  rw [Bool.and_eq_true, lengthMatches_iff huser hu, lengthMatches_iff hpass hp]

end FiveGProxy
