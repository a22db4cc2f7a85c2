import FiveGProxy.Protocol.Datagram

/-!
# The grammar of a datagram

`socks5_udp_parse` accepts exactly the datagrams `00 00 00 atyp addr port data`, reads nothing behind
the length that it is given and writes its outputs only when it accepts. `socks5_udp_encode` is its
inverse on the headers with an address.
-/

namespace FiveGProxy

open Memory

/-! ### The accesses of the parser -/

/-- The output arguments; `none` is a null pointer. -/
structure UdpOutputs where
  atyp : Option UInt8
  addr : Option ℕ
  port : Option (UInt8 × UInt8)
  deriving DecidableEq

/-- The outputs, with the offsets that have been read so far. -/
structure UdpParse where
  reads : List ℕ
  out : UdpOutputs
  deriving DecidableEq

def UdpParse.readByte (dgram : ℕ → UInt8) (i : ℕ) : StateM UdpParse UInt8 := fun st =>
  (dgram i, { st with reads := st.reads ++ [i] })

open UdpParse in
/-- The statements behind the last check of each branch; `port` is copied from offset `off`. -/
def storeUdpHeader (dgram : ℕ → UInt8) (t : UInt8) (off : ℕ) : StateM UdpParse Unit := do
  modify fun st => { st with out := { st.out with atyp := st.out.atyp.map fun _ => t } }
  modify fun st => { st with out := { st.out with addr := st.out.addr.map fun _ => 4 } }
  if (← get).out.port.isSome then
    let p ← readByte dgram off
    let q ← readByte dgram (off + 1)
    modify fun st => { st with out := { st.out with port := some (p, q) } }

open UdpParse in
/-- `socks5_udp_parse`, access by access. -/
def socks5UdpParseTrace (dgram : ℕ → UInt8) (len : ℕ) : StateM UdpParse ℤ := do
  if len < 4 then return -1
  if (← readByte dgram 0) ≠ 0 then return -1
  if (← readByte dgram 1) ≠ 0 then return -1
  if (← readByte dgram 2) ≠ 0 then return -1
  let t ← readByte dgram 3
  if t = socks5AtypIpv4 then
    if len < 10 then return -1
    storeUdpHeader dgram t 8
    return 10
  if t = socks5AtypIpv6 then
    if len < 22 then return -1
    storeUdpHeader dgram t 20
    return 22
  if t = socks5AtypDomain then
    if len < 5 then return -1
    let dl ← readByte dgram 4
    if dl = 0 then return -1
    if len < 5 + dl.toNat + 2 then return -1
    storeUdpHeader dgram t (5 + dl.toNat)
    return 5 + dl.toNat + 2
  return -1

def UdpOutputs.store (out : UdpOutputs) (h : UdpHeader) : UdpOutputs where
  atyp := out.atyp.map fun _ => h.atyp
  addr := out.addr.map fun _ => h.addr
  port := out.port.map fun _ => h.port

@[simp] theorem socks5AtypIpv6_ne_ipv4 : socks5AtypIpv6 ≠ socks5AtypIpv4 := by decide

@[simp] theorem socks5AtypDomain_ne_ipv4 : socks5AtypDomain ≠ socks5AtypIpv4 := by decide

@[simp] theorem socks5AtypDomain_ne_ipv6 : socks5AtypDomain ≠ socks5AtypIpv6 := by decide

variable {dgram : ℕ → UInt8} {len : ℕ}

@[simp] theorem readByte_bind {α : Type} (i : ℕ) (f : UInt8 → StateM UdpParse α) (st : UdpParse) :
    (UdpParse.readByte dgram i >>= f) st = f (dgram i) ⟨st.reads ++ [i], st.out⟩ := rfl

@[simp] theorem pure_parse {α : Type} (a : α) (st : UdpParse) :
    (pure a : StateM UdpParse α) st = (a, st) := rfl

theorem storeUdpHeader_eq (dgram : ℕ → UInt8) (t : UInt8) (off hlen : ℕ) (st : UdpParse) :
    ∃ reads, (∀ i ∈ reads, i < off + 2) ∧ storeUdpHeader dgram t off st =
      ((), ⟨st.reads ++ reads, st.out.store ⟨hlen, t, 4, (dgram off, dgram (off + 1))⟩⟩) := by
  obtain ⟨reads, ⟨atyp, addr, port⟩⟩ := st
  cases port with
  | none =>
      refine ⟨[], nofun, ?_⟩
      rw [List.append_nil]
      rfl
  | some pq =>
      refine ⟨[off, off + 1], by simp, ?_⟩
      rw [show reads ++ [off, off + 1] = reads ++ [off] ++ [off + 1] by simp]
      rfl

theorem storeUdpHeader_return (dgram : ℕ → UInt8) (t : UInt8) (off n : ℕ) (st : UdpParse)
    (done : List ℕ) (hdone : ∀ i ∈ done, i < len) (hoff : off + 2 ≤ len) :
    ∃ reads, (∀ i ∈ reads, i < len) ∧
      (storeUdpHeader dgram t off >>= fun _ => (pure (n : ℤ) : StateM UdpParse ℤ))
          ⟨st.reads ++ done, st.out⟩ =
        ((n : ℤ), ⟨st.reads ++ reads, st.out.store ⟨n, t, 4, (dgram off, dgram (off + 1))⟩⟩) := by
  obtain ⟨reads, hreads, heq⟩ :=
    storeUdpHeader_eq dgram t off n ⟨st.reads ++ done, st.out⟩
  refine ⟨done ++ reads, fun i hi => ?_, ?_⟩
  · rcases List.mem_append.mp hi with hi | hi
    · exact hdone i hi
    · exact (hreads i hi).trans_le hoff
  · show ((n : ℤ), (storeUdpHeader dgram t off ⟨st.reads ++ done, st.out⟩).2) = _
    rw [heq, List.append_assoc]

theorem socks5UdpParseTrace_eq (dgram : ℕ → UInt8) (len : ℕ) (st : UdpParse) :
    ∃ reads, (∀ i ∈ reads, i < len) ∧ socks5UdpParseTrace dgram len st =
      match socks5UdpParse dgram len with
      | none => (-1, ⟨st.reads ++ reads, st.out⟩)
      | some h => (h.hlen, ⟨st.reads ++ reads, st.out.store h⟩) := by
  by_cases h4 : len < 4
  · exact ⟨[], (by rintro _ ⟨⟩), by simp [socks5UdpParse, socks5UdpParseTrace, h4]⟩
  by_cases h0 : dgram 0 = 0
  case neg => exact ⟨[0], by simp; omega, by simp [socks5UdpParse, socks5UdpParseTrace, h4, h0]⟩
  by_cases h1 : dgram 1 = 0
  case neg =>
    exact ⟨[0, 1], by simp; omega, by simp [socks5UdpParse, socks5UdpParseTrace, h4, h0, h1]⟩
  by_cases h2 : dgram 2 = 0
  case neg =>
    exact ⟨[0, 1, 2], by simp; omega,
      by simp [socks5UdpParse, socks5UdpParseTrace, h4, h0, h1, h2]⟩
  have hread : ∀ i ∈ [0, 1, 2, 3], i < len := by simp; omega
  by_cases hv4 : dgram 3 = socks5AtypIpv4
  · by_cases h10 : len < 10
    · exact ⟨_, hread, by simp [socks5UdpParse, socks5UdpParseTrace, h4, h0, h1, h2, hv4, h10]⟩
    · have hstore := storeUdpHeader_return dgram (dgram 3) 8 10 st _ hread (by omega)
      simpa [socks5UdpParse, socks5UdpParseTrace, h4, h0, h1, h2, hv4, h10] using hstore
  by_cases hv6 : dgram 3 = socks5AtypIpv6
  · by_cases h22 : len < 22
    · exact ⟨_, hread,
        by simp [socks5UdpParse, socks5UdpParseTrace, h4, h0, h1, h2, hv6, h22]⟩
    · have hstore := storeUdpHeader_return dgram (dgram 3) 20 22 st _ hread (by omega)
      simpa [socks5UdpParse, socks5UdpParseTrace, h4, h0, h1, h2, hv4, hv6, h22] using hstore
  by_cases hdom : dgram 3 = socks5AtypDomain
  case neg =>
    exact ⟨_, hread,
      by simp [socks5UdpParse, socks5UdpParseTrace, h4, h0, h1, h2, hv4, hv6, hdom]⟩
  by_cases h5 : len < 5
  · exact ⟨_, hread,
      by simp [socks5UdpParse, socks5UdpParseTrace, h4, h0, h1, h2, hdom, h5]⟩
  have hread' : ∀ i ∈ [0, 1, 2, 3, 4], i < len := by simp; omega
  by_cases hdl : dgram 4 = 0
  · exact ⟨_, hread',
      by simp [socks5UdpParse, socks5UdpParseTrace, h4, h0, h1, h2, hdom, h5, hdl]⟩
  by_cases hfull : len < 5 + (dgram 4).toNat + 2
  · exact ⟨_, hread',
      by simp [socks5UdpParse, socks5UdpParseTrace, h4, h0, h1, h2, hdom, h5, hdl, hfull]⟩
  have hstore := storeUdpHeader_return dgram (dgram 3) (5 + (dgram 4).toNat)
    (5 + (dgram 4).toNat + 2) st _ hread' (by omega)
  simpa [socks5UdpParse, socks5UdpParseTrace, h4, h0, h1, h2, hdom, h5, hdl, hfull] using hstore

/-! ### The grammar -/

/-- What a datagram may name as its destination. -/
inductive UdpDest
  | ip (addr : IpAddr)
  | domain (name : List UInt8) (ne_nil : name ≠ []) (fits : name.length < 256)

namespace UdpDest

def atyp : UdpDest → UInt8
  | ip addr => addr.atyp
  | domain .. => socks5AtypDomain

/-- The field behind `atyp`; a domain has its length in front. -/
def bytes : UdpDest → List UInt8
  | ip addr => addr.bytes
  | domain name _ _ => UInt8.ofNat name.length :: name

end UdpDest

def udpDatagram (dest : UdpDest) (port : UInt8 × UInt8) (data : List UInt8) : List UInt8 :=
  [0, 0, 0, dest.atyp] ++ (dest.bytes ++ (port.1 :: port.2 :: data))

theorem udpDatagram_ip (addr : IpAddr) (port : UInt8 × UInt8) (data : List UInt8) :
    udpDatagram (.ip addr) port data = socks5UdpEncode addr port ++ data := by
  simp [udpDatagram, socks5UdpEncode, encodeAddrPort, UdpDest.atyp, UdpDest.bytes]

/-- The parts of a datagram whose address field has `n` bytes. -/
theorem slice_datagram {n : ℕ} (h : 6 + n ≤ len) :
    slice dgram 0 len = [dgram 0, dgram 1, dgram 2, dgram 3] ++
      (slice dgram 4 n ++ (dgram (4 + n) :: dgram (5 + n) :: slice dgram (6 + n) (len - (6 + n)))) := by
  obtain ⟨k, rfl⟩ := Nat.exists_eq_add_of_le h
  rw [show 6 + n + k = 4 + (n + (2 + k)) by omega, slice_add, slice_add _ _ n, slice_add _ _ 2,
    show 4 + (n + (2 + k)) - (6 + n) = k by omega, Nat.zero_add, show 4 + n + 2 = 6 + n by omega,
    show 5 + n = 4 + n + 1 by omega]
  rfl

theorem IpAddr.eq_of_bytes {a b : IpAddr} (hatyp : a.atyp = b.atyp) (hbytes : a.bytes = b.bytes) :
    a = b := by
  cases a with
  | v4 x =>
      cases b with
      | v4 y => exact congrArg v4 (Vector.toList_inj.mp hbytes)
      | v6 y => exact absurd hatyp.symm socks5AtypIpv6_ne_ipv4
  | v6 x =>
      cases b with
      | v4 y => exact absurd hatyp socks5AtypIpv6_ne_ipv4
      | v6 y => exact congrArg v6 (Vector.toList_inj.mp hbytes)

theorem UdpDest.exists_ip {dest : UdpDest} {addr : IpAddr} (h : dest.atyp = addr.atyp) :
    ∃ a : IpAddr, dest = .ip a ∧ a.atyp = addr.atyp ∧ a.bytes.length = addr.bytes.length := by
  cases dest with
  | ip a =>
      have hatyp : a.atyp = addr.atyp := h
      refine ⟨a, rfl, hatyp, ?_⟩
      rcases length_bytes a with ⟨hlen, ha⟩ | ⟨hlen, ha⟩ <;>
        rcases length_bytes addr with ⟨hlen', ha'⟩ | ⟨hlen', ha'⟩
      · rw [hlen, hlen']
      · exact absurd (ha'.symm.trans (hatyp.symm.trans ha)) socks5AtypIpv6_ne_ipv4
      · exact absurd (ha.symm.trans (hatyp.trans ha')) socks5AtypIpv6_ne_ipv4
      · rw [hlen, hlen']
  | domain name hne hfits =>
      rcases length_bytes addr with ⟨-, ha⟩ | ⟨-, ha⟩
      · exact absurd (h.trans ha) socks5AtypDomain_ne_ipv4
      · exact absurd (h.trans ha) socks5AtypDomain_ne_ipv6

section

variable {dest : UdpDest} {port : UInt8 × UInt8} {data : List UInt8}

theorem udpDatagram_parts (h : slice dgram 0 len = udpDatagram dest port data) :
    len = 6 + dest.bytes.length + data.length ∧ slice dgram 4 dest.bytes.length = dest.bytes ∧
      slice dgram (6 + dest.bytes.length) data.length = data := by
  have hlen : len = 6 + dest.bytes.length + data.length := by
    have := congrArg List.length h
    simp [udpDatagram] at this
    omega
  rw [slice_datagram (n := dest.bytes.length) (by omega), udpDatagram] at h
  obtain ⟨-, htail⟩ := List.append_inj h rfl
  obtain ⟨haddr, hrest⟩ := List.append_inj htail (by simp)
  rw [List.cons.injEq, List.cons.injEq] at hrest
  rw [show len - (6 + dest.bytes.length) = data.length by omega] at hrest
  exact ⟨hlen, haddr, hrest.2.2⟩

theorem socks5UdpParse_domain_eq {name : List UInt8} (hne : name ≠ []) (hfits : name.length < 256)
    (port : UInt8 × UInt8) (data : List UInt8) :
    socks5UdpParse (ofList (udpDatagram (.domain name hne hfits) port data))
        (udpDatagram (.domain name hne hfits) port data).length =
      some ⟨7 + name.length, socks5AtypDomain, 4, port⟩ := by
  have hpos : 0 < name.length := List.length_pos_of_ne_nil hne
  have hlen : (udpDatagram (.domain name hne hfits) port data).length =
      7 + name.length + data.length := by
    simp [udpDatagram, UdpDest.bytes]
    omega
  have hdl : (UInt8.ofNat name.length).toNat = name.length := by
    rw [UInt8.toNat_ofNat']
    exact Nat.mod_eq_of_lt hfits
  have hshape : udpDatagram (.domain name hne hfits) port data =
      [0, 0, 0, socks5AtypDomain, UInt8.ofNat name.length] ++ (name ++ (port.1 :: port.2 :: data)) :=
    rfl
  have hport : ∀ i, ofList (udpDatagram (.domain name hne hfits) port data) (5 + (name.length + i)) =
      ofList (port.1 :: port.2 :: data) i := by
    intro i
    rw [hshape]
    exact (ofList_append_right [0, 0, 0, socks5AtypDomain, UInt8.ofNat name.length] _ _).trans
      (ofList_append_right name _ i)
  have h0 : ofList (udpDatagram (.domain name hne hfits) port data) 0 = 0 := rfl
  have h1 : ofList (udpDatagram (.domain name hne hfits) port data) 1 = 0 := rfl
  have h2 : ofList (udpDatagram (.domain name hne hfits) port data) 2 = 0 := rfl
  have h3 : ofList (udpDatagram (.domain name hne hfits) port data) 3 = socks5AtypDomain := rfl
  have h4 : ofList (udpDatagram (.domain name hne hfits) port data) 4 = UInt8.ofNat name.length := rfl
  have hzero : UInt8.ofNat name.length ≠ 0 := by
    intro heq
    rw [heq] at hdl
    exact Nat.ne_of_lt hpos hdl
  have hfirst : ofList (udpDatagram (.domain name hne hfits) port data) (5 + name.length) = port.1 :=
    hport 0
  have hlast : ofList (udpDatagram (.domain name hne hfits) port data) (5 + name.length + 1) =
      port.2 := hport 1
  unfold socks5UdpParse
  rw [hlen, h0, h1, h2, h3, h4, hdl, hfirst, hlast, if_neg (by omega), if_neg (by simp),
    if_neg (by simp), if_neg socks5AtypDomain_ne_ipv4, if_neg socks5AtypDomain_ne_ipv6, if_pos rfl,
    if_neg (by omega), if_neg hzero, if_neg (by omega),
    show 5 + name.length + 2 = 7 + name.length by omega]

theorem socks5UdpParse_datagram (h : slice dgram 0 len = udpDatagram dest port data) :
    socks5UdpParse dgram len = some ⟨6 + dest.bytes.length, dest.atyp, 4, port⟩ := by
  have hlen : len = (udpDatagram dest port data).length := by rw [← h, length_slice]
  have hcongr : socks5UdpParse dgram len = socks5UdpParse (ofList (slice dgram 0 len)) len :=
    socks5UdpParse_congr fun i hi => (ofList_slice dgram hi).symm
  rw [hcongr, h, hlen]
  cases dest with
  | ip addr =>
      rw [udpDatagram_ip]
      exact socks5UdpParse_encode addr port data
  | domain name hne hfits =>
      rw [socks5UdpParse_domain_eq, UdpDest.bytes, List.length_cons,
        show 6 + (name.length + 1) = 7 + name.length by omega]
      rfl

theorem exists_datagram (dest : UdpDest) {n : ℕ} (hzero : dgram 0 = 0 ∧ dgram 1 = 0 ∧ dgram 2 = 0)
    (hatyp : dgram 3 = dest.atyp) (hbytes : slice dgram 4 n = dest.bytes) (hlen : 6 + n ≤ len) :
    ∃ dest port data, slice dgram 0 len = udpDatagram dest port data := by
  refine ⟨dest, (dgram (4 + n), dgram (5 + n)), slice dgram (6 + n) (len - (6 + n)), ?_⟩
  rw [slice_datagram hlen, hzero.1, hzero.2.1, hzero.2.2, hatyp, hbytes]
  rfl

theorem datagram_of_socks5UdpParse {hd : UdpHeader} (h : socks5UdpParse dgram len = some hd) :
    ∃ dest port data, slice dgram 0 len = udpDatagram dest port data := by
  unfold socks5UdpParse at h
  split_ifs at h with _ h01 h2 hv4 hlen hv6 hlen hdom _ hdl hlen
  all_goals
    obtain ⟨h0, h1⟩ := not_or.mp h01
    have hzero : dgram 0 = 0 ∧ dgram 1 = 0 ∧ dgram 2 = 0 :=
      ⟨not_ne_iff.mp h0, not_ne_iff.mp h1, not_ne_iff.mp h2⟩
  · exact exists_datagram (.ip (.v4 ⟨(slice dgram 4 4).toArray, by simp⟩)) (n := 4) hzero hv4 rfl
      (by omega)
  · exact exists_datagram (.ip (.v6 ⟨(slice dgram 4 16).toArray, by simp⟩)) (n := 16) hzero hv6 rfl
      (by omega)
  · have hlength : (slice dgram 5 (dgram 4).toNat).length = (dgram 4).toNat := length_slice ..
    refine exists_datagram (.domain (slice dgram 5 (dgram 4).toNat) (List.ne_nil_of_length_pos ?_)
      (by rw [hlength]; exact (dgram 4).toNat_lt)) (n := 1 + (dgram 4).toNat) hzero hdom ?_ (by omega)
    · rw [hlength, Nat.pos_iff_ne_zero]
      exact fun hz => hdl (UInt8.toNat_inj.mp hz)
    · rw [slice_add, UdpDest.bytes, hlength, UInt8.ofNat_toNat]
      rfl

theorem socks5UdpParseTrace_datagram (h : slice dgram 0 len = udpDatagram dest port data)
    (st : UdpParse) : (socks5UdpParseTrace dgram len st).1 = (6 + dest.bytes.length : ℕ) ∧
      (socks5UdpParseTrace dgram len st).2.out =
        ⟨st.out.atyp.map fun _ => dest.atyp, st.out.addr.map fun _ => 4,
          st.out.port.map fun _ => port⟩ := by
  obtain ⟨reads, -, heq⟩ := socks5UdpParseTrace_eq dgram len st
  rw [heq, socks5UdpParse_datagram h]
  exact ⟨rfl, rfl⟩

theorem socks5UdpParseTrace_ne (st : UdpParse) : (socks5UdpParseTrace dgram len st).1 ≠ -1 ↔
    ∃ dest port data, slice dgram 0 len = udpDatagram dest port data := by
  constructor
  · intro hne
    obtain ⟨reads, -, heq⟩ := socks5UdpParseTrace_eq dgram len st
    cases hp : socks5UdpParse dgram len with
    | none =>
        rw [heq, hp] at hne
        exact absurd rfl hne
    | some hd => exact datagram_of_socks5UdpParse hp
  · rintro ⟨dest, port, data, h⟩
    rw [(socks5UdpParseTrace_datagram h st).1]
    omega

end

/-! ### Both directions -/

/-- For every byte string, `socks5_udp_parse` succeeds if and only if it is a datagram of the grammar.
It then returns the offset of the data, with the place of the address and the port, and otherwise
leaves its outputs alone; it reads nothing at or behind `len`. Parsing what `socks5_udp_encode` has
made, with a payload behind it, gives back the address, the port and the payload, and encoding what a
datagram with an address was parsed into gives back its header. -/
theorem udp_datagram_codec :
    (∀ (dgram : ℕ → UInt8) (len : ℕ) (st : UdpParse),
      ((socks5UdpParseTrace dgram len st).1 ≠ -1 ↔
        ∃ dest port data, slice dgram 0 len = udpDatagram dest port data) ∧
      (∀ dest port data, slice dgram 0 len = udpDatagram dest port data →
        (socks5UdpParseTrace dgram len st).1 = (6 + dest.bytes.length : ℕ) ∧
        6 + dest.bytes.length ≤ len ∧
        (socks5UdpParseTrace dgram len st).2.out =
          ⟨st.out.atyp.map fun _ => dest.atyp, st.out.addr.map fun _ => 4,
            st.out.port.map fun _ => port⟩ ∧
        slice dgram 4 dest.bytes.length = dest.bytes ∧
        slice dgram (6 + dest.bytes.length) (len - (6 + dest.bytes.length)) = data) ∧
      ((socks5UdpParseTrace dgram len st).1 = -1 →
        (socks5UdpParseTrace dgram len st).2.out = st.out) ∧
      ∀ i ∈ (socks5UdpParseTrace dgram len st).2.reads, i ∈ st.reads ∨ i < len) ∧
    (∀ (addr : IpAddr) (port : UInt8 × UInt8) (payload : List UInt8) (st : UdpParse),
      let dgram := ofList (socks5UdpEncode addr port ++ payload)
      let hlen := (socks5UdpEncode addr port).length
      let result := socks5UdpParseTrace dgram (hlen + payload.length) st
      result.1 = hlen ∧ result.2.out =
          ⟨st.out.atyp.map fun _ => addr.atyp, st.out.addr.map fun _ => 4,
            st.out.port.map fun _ => port⟩ ∧
        slice dgram 4 addr.bytes.length = addr.bytes ∧ slice dgram hlen payload.length = payload) ∧
    ∀ (dgram : ℕ → UInt8) (len : ℕ) (st : UdpParse) (addr : IpAddr) (off : ℕ) (port : UInt8 × UInt8),
      (socks5UdpParseTrace dgram len st).1 ≠ -1 →
      (socks5UdpParseTrace dgram len st).2.out = ⟨some addr.atyp, some off, some port⟩ →
      slice dgram off addr.bytes.length = addr.bytes →
      (socks5UdpParseTrace dgram len st).1 = (socks5UdpEncode addr port).length ∧
        slice dgram 0 (socks5UdpEncode addr port).length = socks5UdpEncode addr port := by
  refine ⟨fun dgram len st => ⟨socks5UdpParseTrace_ne st, fun dest port data h => ?_, ?_, ?_⟩,
    fun addr port payload st => ?_, fun dgram len st addr off port hne hout hbytes => ?_⟩
  · obtain ⟨hlen, haddr, hdata⟩ := udpDatagram_parts h
    obtain ⟨hret, hout⟩ := socks5UdpParseTrace_datagram h st
    rw [show len - (6 + dest.bytes.length) = data.length by omega]
    exact ⟨hret, by omega, hout, haddr, hdata⟩
  · obtain ⟨reads, -, heq⟩ := socks5UdpParseTrace_eq dgram len st
    rw [heq]
    cases socks5UdpParse dgram len with
    | none => exact fun _ => rfl
    | some hd => exact fun hfail => absurd hfail (by simp)
  · obtain ⟨reads, hreads, heq⟩ := socks5UdpParseTrace_eq dgram len st
    intro i hi
    have hmem : i ∈ st.reads ++ reads := by
      rw [heq] at hi
      cases hp : socks5UdpParse dgram len <;> rw [hp] at hi <;> exact hi
    exact (List.mem_append.mp hmem).imp_right (hreads i)
  · have hslice : slice (ofList (socks5UdpEncode addr port ++ payload)) 0
        ((socks5UdpEncode addr port).length + payload.length) =
          udpDatagram (.ip addr) port payload := by
      have h := slice_ofList_append [] (socks5UdpEncode addr port ++ payload) []
      rw [List.append_nil, List.nil_append, List.length_append, List.length_nil] at h
      rw [udpDatagram_ip, h]
    obtain ⟨-, haddr, hdata⟩ := udpDatagram_parts hslice
    obtain ⟨hret, hout⟩ := socks5UdpParseTrace_datagram hslice st
    rw [length_socks5UdpEncode] at hret hout ⊢
    exact ⟨hret, hout, haddr, hdata⟩
  · obtain ⟨dest, port', data, h⟩ := (socks5UdpParseTrace_ne st).mp hne
    obtain ⟨hlen, haddr, hdata⟩ := udpDatagram_parts h
    obtain ⟨hret, hout'⟩ := socks5UdpParseTrace_datagram h st
    rw [hout', UdpOutputs.mk.injEq, Option.map_eq_some_iff, Option.map_eq_some_iff,
      Option.map_eq_some_iff] at hout
    obtain ⟨⟨-, -, hatyp⟩, ⟨-, -, rfl⟩, ⟨-, -, rfl⟩⟩ := hout
    obtain ⟨a, rfl, hatyp', hlength⟩ := UdpDest.exists_ip hatyp
    obtain rfl : addr = a :=
      IpAddr.eq_of_bytes hatyp'.symm (hbytes.symm.trans ((congrArg _ hlength.symm).trans haddr))
    refine ⟨by rw [hret, length_socks5UdpEncode]; rfl, ?_⟩
    have hle : (socks5UdpEncode addr port').length ≤ len := by
      rw [length_socks5UdpEncode, hlen]
      exact Nat.le_add_right _ _
    rw [← slice_take dgram 0 hle, h, udpDatagram_ip, List.take_left']
    rfl

end FiveGProxy
