import FiveGProxy.Library.Memory
import Mathlib.Data.Nat.Bitwise

/-!
# The SOCKS5 UDP datagram and the UDP-in-TCP length field

The byte-level functions of `socks5_protocol.c` that the two UDP paths share. A pointer
argument is a memory and the functions that read `len` bytes behind it take `len` as the C
functions do, so that what they never read is a statement about them
(`socks5UdpParse_congr`). An address together with the flag `is_v6` is an `IpAddr`.

`udpFrameCall` is what both receive paths do with a complete datagram: parse it, and call
`udp_route_frame` when a payload follows the header.
-/

namespace FiveGProxy

open Memory

/-- `BUFFER_SIZE`. -/
def bufferSize : ℕ := 64 * 1024

def socks5AtypIpv4 : UInt8 := 0x01

def socks5AtypDomain : UInt8 := 0x03

def socks5AtypIpv6 : UInt8 := 0x04

/-- What `socks5_udp_parse` returns: the header length and its three output arguments. The
address is the offset that `*addr` points to. -/
structure UdpHeader where
  hlen : ℕ
  atyp : UInt8
  addr : ℕ
  port : UInt8 × UInt8
  deriving DecidableEq

/-- `none` is the return value `-1`, on which no output is written. -/
def socks5UdpParse (dgram : ℕ → UInt8) (len : ℕ) : Option UdpHeader :=
  if len < 4 then none
  else if dgram 0 ≠ 0 ∨ dgram 1 ≠ 0 then none
  else if dgram 2 ≠ 0 then none
  else if dgram 3 = socks5AtypIpv4 then
    if len < 10 then none
    else some ⟨10, dgram 3, 4, (dgram 8, dgram 9)⟩
  else if dgram 3 = socks5AtypIpv6 then
    if len < 22 then none
    else some ⟨22, dgram 3, 4, (dgram 20, dgram 21)⟩
  else if dgram 3 = socks5AtypDomain then
    if len < 5 then none
    else if dgram 4 = 0 then none
    else if len < 5 + (dgram 4).toNat + 2 then none
    else some ⟨5 + (dgram 4).toNat + 2, dgram 3, 4,
      (dgram (5 + (dgram 4).toNat), dgram (5 + (dgram 4).toNat + 1))⟩
  else none

def octets (a b c d : UInt8) : Vector UInt8 4 := #v[a, b, c, d]

/-- An address with its family: 4 bytes when `is_v6` is 0, else 16. -/
inductive IpAddr where
  | v4 (bytes : Vector UInt8 4)
  | v6 (bytes : Vector UInt8 16)
  deriving DecidableEq

namespace IpAddr

def atyp : IpAddr → UInt8
  | v4 _ => socks5AtypIpv4
  | v6 _ => socks5AtypIpv6

def bytes : IpAddr → List UInt8
  | v4 b => b.toList
  | v6 b => b.toList

end IpAddr

/-- The bytes `encode_addr_port` stores; their number is its return value. -/
def encodeAddrPort (addr : IpAddr) (port : UInt8 × UInt8) : List UInt8 :=
  addr.atyp :: (addr.bytes ++ [port.1, port.2])

/-- The bytes `socks5_udp_encode` stores; their number is its return value. -/
def socks5UdpEncode (addr : IpAddr) (port : UInt8 × UInt8) : List UInt8 :=
  0 :: 0 :: 0 :: encodeAddrPort addr port

/-- `none` is the return value `-1`. -/
def socks5UdpTcpFrameLen (lenField : UInt8 × UInt8) (maxLen : ℕ) : Option ℕ :=
  let dlen := lenField.1.toNat <<< 8 ||| lenField.2.toNat
  if dlen < 4 ∨ dlen > maxLen then none else some dlen

/-- The arguments of a call of `udp_route_frame`, with the bytes it finds behind `addr`. For a
domain these begin with the length byte. -/
structure RouteCall where
  atyp : UInt8
  addr : List UInt8
  port : UInt8 × UInt8
  payload : List UInt8
  deriving DecidableEq

def UdpHeader.addrBytes (h : UdpHeader) (dgram : ℕ → UInt8) : List UInt8 :=
  if h.atyp = socks5AtypIpv4 then slice dgram h.addr 4
  else if h.atyp = socks5AtypIpv6 then slice dgram h.addr 16
  else slice dgram h.addr (1 + (dgram h.addr).toNat)

/-- Parses a complete datagram; `udp_route_frame` is called when it is accepted and a payload
follows the header. -/
def udpFrameCall (dgram : ℕ → UInt8) (len : ℕ) : Option RouteCall :=
  match socks5UdpParse dgram len with
  | none => none
  | some h =>
      if h.hlen < len then
        some ⟨h.atyp, h.addrBytes dgram, h.port, slice dgram h.hlen (len - h.hlen)⟩
      else none

def routeOf (body : List UInt8) : Option RouteCall :=
  udpFrameCall (ofList body) body.length

/-- `socks5_udp_parse` reads nothing at or behind `len`. -/
theorem socks5UdpParse_congr {m m' : ℕ → UInt8} {len : ℕ} (h : ∀ i, i < len → m i = m' i) :
    socks5UdpParse m len = socks5UdpParse m' len := by
  unfold socks5UdpParse
  by_cases h4 : len < 4
  · rw [if_pos h4, if_pos h4]
  rw [if_neg h4, if_neg h4, h 0 (by omega), h 1 (by omega), h 2 (by omega), h 3 (by omega)]
  by_cases h5 : len < 5
  · have h10 : len < 10 := by omega
    have h22 : len < 22 := by omega
    simp only [h5, h10, h22, if_true]
  rw [h 4 (by omega)]
  by_cases h10 : len < 10
  · have h22 : len < 22 := by omega
    simp only [h10, h22, if_true]
    by_cases hdl : len < 5 + (m' 4).toNat + 2
    · simp only [hdl, if_true]
    · rw [h (5 + (m' 4).toNat) (by omega), h (5 + (m' 4).toNat + 1) (by omega)]
  rw [h 8 (by omega), h 9 (by omega)]
  have htail : ∀ k, 5 + k + 2 ≤ len → m (5 + k) = m' (5 + k) ∧ m (5 + k + 1) = m' (5 + k + 1) :=
    fun k hk => ⟨h _ (by omega), h _ (by omega)⟩
  by_cases h22 : len < 22
  · simp only [h22, if_true]
    by_cases hdl : len < 5 + (m' 4).toNat + 2
    · simp only [hdl, if_true]
    · rw [(htail _ (by omega)).1, (htail _ (by omega)).2]
  rw [h 20 (by omega), h 21 (by omega)]
  by_cases hdl : len < 5 + (m' 4).toNat + 2
  · simp only [hdl, if_true]
  · rw [(htail _ (by omega)).1, (htail _ (by omega)).2]

/-- An accepted header lies inside the datagram, and so does its address. -/
theorem socks5UdpParse_bounds {m : ℕ → UInt8} {len : ℕ} {h : UdpHeader}
    (hp : socks5UdpParse m len = some h) :
    h.addr = 4 ∧ h.hlen ≤ len ∧
      (h.atyp = socks5AtypIpv4 ∧ h.hlen = 10 ∨ h.atyp = socks5AtypIpv6 ∧ h.hlen = 22 ∨
        h.atyp = socks5AtypDomain ∧ h.hlen = 5 + (m 4).toNat + 2) := by
  unfold socks5UdpParse at hp
  split at hp <;> [cases hp; skip]
  split at hp <;> [cases hp; skip]
  split at hp <;> [cases hp; skip]
  split at hp
  · split at hp <;> [cases hp; skip]
    cases hp
    exact ⟨rfl, Nat.le_of_not_lt ‹_›, Or.inl ⟨by assumption, rfl⟩⟩
  split at hp
  · split at hp <;> [cases hp; skip]
    cases hp
    exact ⟨rfl, Nat.le_of_not_lt ‹_›, Or.inr (Or.inl ⟨by assumption, rfl⟩)⟩
  split at hp
  · split at hp <;> [cases hp; skip]
    split at hp <;> [cases hp; skip]
    split at hp <;> [cases hp; skip]
    cases hp
    exact ⟨rfl, Nat.le_of_not_lt ‹_›, Or.inr (Or.inr ⟨by assumption, rfl⟩)⟩
  · cases hp

theorem udpFrameCall_congr {m m' : ℕ → UInt8} {len : ℕ} (h : ∀ i, i < len → m i = m' i) :
    udpFrameCall m len = udpFrameCall m' len := by
  unfold udpFrameCall
  rw [socks5UdpParse_congr h]
  cases hp : socks5UdpParse m' len with
  | none => rfl
  | some hd =>
      obtain ⟨haddr, hlen, hkind⟩ := socks5UdpParse_bounds hp
      by_cases hpay : hd.hlen < len
      · have hsl : ∀ off n, off + n ≤ len → slice m off n = slice m' off n :=
          fun off n hn => slice_congr fun i hi => h _ (by omega)
        have h4 : m 4 = m' 4 := by
          rcases hkind with hk | hk | hk <;> exact h _ (by omega)
        have hbytes : hd.addrBytes m = hd.addrBytes m' := by
          unfold UdpHeader.addrBytes
          rw [haddr, h4]
          rcases hkind with ⟨ha, hk⟩ | ⟨ha, hk⟩ | ⟨ha, hk⟩
          · rw [if_pos ha, if_pos ha, hsl _ _ (by omega)]
          · rw [hsl 4 4 (by omega), hsl 4 16 (by omega), ha]
            simp [socks5AtypIpv4, socks5AtypIpv6]
          · rw [hsl 4 4 (by omega), hsl 4 (1 + (m' 4).toNat) (by omega), ha]
            simp [socks5AtypIpv4, socks5AtypIpv6, socks5AtypDomain]
        simp only [if_pos hpay]
        rw [hbytes, hsl _ _ (by omega)]
      · simp only [if_neg hpay]

/-- The call for the datagram at the start of a buffer is the call for its bytes. -/
theorem udpFrameCall_eq_routeOf (m : ℕ → UInt8) (len : ℕ) :
    udpFrameCall m len = routeOf (slice m 0 len) := by
  rw [routeOf, length_slice]
  exact udpFrameCall_congr fun i hi => (ofList_slice m hi).symm

theorem length_bytes (addr : IpAddr) :
    addr.bytes.length = 4 ∧ addr.atyp = socks5AtypIpv4 ∨
      addr.bytes.length = 16 ∧ addr.atyp = socks5AtypIpv6 := by
  cases addr with
  | v4 b => exact Or.inl ⟨b.length_toList, rfl⟩
  | v6 b => exact Or.inr ⟨b.length_toList, rfl⟩

theorem length_socks5UdpEncode (addr : IpAddr) (port : UInt8 × UInt8) :
    (socks5UdpEncode addr port).length = 6 + addr.bytes.length := by
  simp [socks5UdpEncode, encodeAddrPort]
  omega

/-- Parsing an encoded header with a payload behind it gives back what was encoded. -/
theorem socks5UdpParse_encode (addr : IpAddr) (port : UInt8 × UInt8) (payload : List UInt8) :
    socks5UdpParse (ofList (socks5UdpEncode addr port ++ payload))
        (socks5UdpEncode addr port ++ payload).length =
      some ⟨6 + addr.bytes.length, addr.atyp, 4, port⟩ := by
  have hlen : (socks5UdpEncode addr port ++ payload).length =
      6 + addr.bytes.length + payload.length := by
    rw [List.length_append, length_socks5UdpEncode]
  have hshape : socks5UdpEncode addr port ++ payload =
      [0, 0, 0, addr.atyp] ++ (addr.bytes ++ (port.1 :: port.2 :: payload)) := by
    simp [socks5UdpEncode, encodeAddrPort]
  have hp1 : ofList (socks5UdpEncode addr port ++ payload) (4 + addr.bytes.length) = port.1 := by
    rw [hshape]
    have h := ofList_append_right [0, 0, 0, addr.atyp]
      (addr.bytes ++ (port.1 :: port.2 :: payload)) addr.bytes.length
    have h' := ofList_append_right addr.bytes (port.1 :: port.2 :: payload) 0
    exact h.trans h'
  have hp2 : ofList (socks5UdpEncode addr port ++ payload) (5 + addr.bytes.length) = port.2 := by
    rw [hshape]
    have h := ofList_append_right [0, 0, 0, addr.atyp]
      (addr.bytes ++ (port.1 :: port.2 :: payload)) (addr.bytes.length + 1)
    have h' := ofList_append_right addr.bytes (port.1 :: port.2 :: payload) 1
    rw [show 5 + addr.bytes.length = 4 + (addr.bytes.length + 1) by omega]
    exact h.trans h'
  have h0 : ofList (socks5UdpEncode addr port ++ payload) 0 = 0 := rfl
  have h1 : ofList (socks5UdpEncode addr port ++ payload) 1 = 0 := rfl
  have h2 : ofList (socks5UdpEncode addr port ++ payload) 2 = 0 := rfl
  have h3 : ofList (socks5UdpEncode addr port ++ payload) 3 = addr.atyp := rfl
  unfold socks5UdpParse
  rw [hlen, h0, h1, h2, h3]
  rcases length_bytes addr with ⟨hb, ha⟩ | ⟨hb, ha⟩
  · rw [hb] at hp1 hp2 ⊢
    have hl : ¬ 6 + 4 + payload.length < 4 := by omega
    have hl' : ¬ 6 + 4 + payload.length < 10 := by omega
    simp [ha, hl, hl', hp1, hp2]
  · rw [hb] at hp1 hp2 ⊢
    have hl : ¬ 6 + 16 + payload.length < 4 := by omega
    have hl' : ¬ 6 + 16 + payload.length < 22 := by omega
    simp [ha, hl, hl', hp1, hp2, socks5AtypIpv4, socks5AtypIpv6]

/-- The bytes behind the address pointer of an encoded header are the encoded address. -/
theorem addrBytes_encode (addr : IpAddr) (port : UInt8 × UInt8) (payload : List UInt8)
    (hlen : ℕ) :
    UdpHeader.addrBytes ⟨hlen, addr.atyp, 4, port⟩
        (ofList (socks5UdpEncode addr port ++ payload)) = addr.bytes := by
  have hshape : socks5UdpEncode addr port ++ payload =
      [0, 0, 0, addr.atyp] ++ (addr.bytes ++ (port.1 :: port.2 :: payload)) := by
    simp [socks5UdpEncode, encodeAddrPort]
  have hslice := slice_ofList_append [0, 0, 0, addr.atyp] addr.bytes
    (port.1 :: port.2 :: payload)
  rw [← hshape] at hslice
  unfold UdpHeader.addrBytes
  rcases length_bytes addr with ⟨hb, ha⟩ | ⟨hb, ha⟩
  · rw [hb] at hslice
    rw [if_pos ha]
    exact hslice
  · have hne : ¬ addr.atyp = socks5AtypIpv4 := by rw [ha]; decide
    rw [hb] at hslice
    rw [if_neg hne, if_pos ha]
    exact hslice

/-- A datagram with an encoded header and a non-empty payload is routed with exactly them. -/
theorem routeOf_encode (addr : IpAddr) (port : UInt8 × UInt8) {payload : List UInt8}
    (hne : payload ≠ []) :
    routeOf (socks5UdpEncode addr port ++ payload) =
      some ⟨addr.atyp, addr.bytes, port, payload⟩ := by
  have hpos : 0 < payload.length := List.length_pos_of_ne_nil hne
  have hlen : (socks5UdpEncode addr port ++ payload).length =
      6 + addr.bytes.length + payload.length := by
    rw [List.length_append, length_socks5UdpEncode]
  have htail : slice (ofList (socks5UdpEncode addr port ++ payload)) (6 + addr.bytes.length)
      payload.length = payload := by
    have h := slice_ofList_append (socks5UdpEncode addr port) payload []
    rw [List.append_nil, length_socks5UdpEncode] at h
    exact h
  unfold routeOf udpFrameCall
  rw [socks5UdpParse_encode]
  have hlt : 6 + addr.bytes.length < (socks5UdpEncode addr port ++ payload).length := by omega
  simp only [if_pos hlt, addrBytes_encode]
  rw [hlen, Nat.add_sub_cancel_left, htail]

/-- The two bytes of the length field, as `dlen >> 8` and `dlen & 0xFF`. -/
def lenField (dlen : ℕ) : UInt8 × UInt8 :=
  (UInt8.ofNat (dlen >>> 8), UInt8.ofNat (dlen &&& 0xFF))

/-- The value of a length field is below `2 ^ 16`. -/
theorem lenField_value (a b : UInt8) : a.toNat <<< 8 ||| b.toNat = a.toNat * 256 + b.toNat := by
  rw [Nat.shiftLeft_eq, Nat.mul_comm, ← Nat.two_pow_add_eq_or_of_lt (i := 8) b.toNat_lt,
    Nat.mul_comm]

theorem socks5UdpTcpFrameLen_eq (a b : UInt8) :
    socks5UdpTcpFrameLen (a, b) bufferSize =
      if a.toNat * 256 + b.toNat < 4 then none else some (a.toNat * 256 + b.toNat) := by
  have ha := a.toNat_lt
  have hb := b.toNat_lt
  have hmax : ¬ a.toNat * 256 + b.toNat > bufferSize := by
    unfold bufferSize
    omega
  simp [socks5UdpTcpFrameLen, lenField_value, hmax]

theorem socks5UdpTcpFrameLen_lenField {dlen : ℕ} (h4 : 4 ≤ dlen) (hlt : dlen < 2 ^ 16) :
    socks5UdpTcpFrameLen (lenField dlen) bufferSize = some dlen := by
  have hhi : (UInt8.ofNat (dlen >>> 8)).toNat = dlen / 256 := by
    rw [UInt8.toNat_ofNat', Nat.shiftRight_eq_div_pow]
    exact Nat.mod_eq_of_lt (by omega)
  have hlo : (UInt8.ofNat (dlen &&& 0xFF)).toNat = dlen % 256 := by
    rw [UInt8.toNat_ofNat', show (0xFF : ℕ) = 2 ^ 8 - 1 from rfl, Nat.and_two_pow_sub_one_eq_mod]
    omega
  rw [lenField, socks5UdpTcpFrameLen_eq, hhi, hlo]
  have hval : dlen / 256 * 256 + dlen % 256 = dlen := by omega
  rw [hval, if_neg (by omega)]

end FiveGProxy
