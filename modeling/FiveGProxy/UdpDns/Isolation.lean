import FiveGProxy.UdpDns.Model
import FiveGProxy.UdpSession.Downstream

/-!
# Datagrams of strangers

The relay socket of a session with command 0x03 takes datagrams from anyone. `udp_local_event` drops
those whose source is not the peer of the control connection and those whose header it cannot parse.
They leave nothing behind in what the session sends, holds or answers. But every event of a session
counts as activity before its source is looked at, so a stranger can keep a session from being
reclaimed.
-/

namespace FiveGProxy

open Memory Steps

/-- `UDP_IDLE_TIMEOUT_SEC`. -/
def udpIdleTimeoutSec : ℕ := 360

def udpConnIdleExpired (now lastActive timeoutSec : ℕ) : Bool :=
  if lastActive = 0 then false else decide (timeoutSec < now - lastActive)

/-- `socks5_addr_normalize` applied to the address in a `sockaddr_storage`. -/
def SrcAddr.normalize : SrcAddr → List UInt8
  | .inet addr _ => List.replicate 10 0 ++ [0xff, 0xff] ++ addr.toList
  | .inet6 addr _ => addr.toList

def sameIp (a b : SrcAddr) : Bool := a.normalize == b.normalize

/-- The UDP workers with what `udp_local_event`, `udp_remote_event` and the idle scan use of a
session. -/
structure LocalRelay where
  dns : UdpDns
  /-- The session has command 0x03: `local_udp_fd` is not negative. -/
  associate : ℕ → Bool
  /-- `client_src_addr`; `none` when `client_src_len` is 0. -/
  clientSrc : ℕ → Option SrcAddr
  inBuf : ℕ → ℕ → UInt8
  lastActive : ℕ → ℕ
  /-- The datagrams sent to the clients, with session and destination. -/
  relayed : List (ℕ × SrcAddr × List UInt8)

inductive LocalRelayEvent
  | openSession (w : Fin udpWorkerCount) (remoteOpen associate : Bool) (now : ℕ)
  /-- `recvfrom` on the relay socket of session `u`. -/
  | datagram (w : Fin udpWorkerCount) (u now : ℕ) (src : SrcAddr) (body : List UInt8)
  /-- `recvfrom` on the 5G socket of session `u`, which has command 0x03. -/
  | remote (w : Fin udpWorkerCount) (u now : ℕ) (d : Datagram)
  /-- Another event of session `u`. -/
  | touch (w : Fin udpWorkerCount) (u now : ℕ)
  /-- The idle scan; `backlog` are the sessions with `out_len > 0`. -/
  | idleScan (w : Fin udpWorkerCount) (now : ℕ) (registered backlog : ℕ → Bool)
  | dns (ev : UdpDnsEvent)

namespace LocalRelay

def init : LocalRelay where
  dns := UdpDns.init
  associate := fun _ => false
  clientSrc := fun _ => none
  inBuf := fun _ _ => 0
  lastActive := fun _ => 0
  relayed := []

def touched (s : LocalRelay) (u now : ℕ) : LocalRelay :=
  { s with lastActive := Function.update s.lastActive u now }

def setInBuf (s : LocalRelay) (u : ℕ) (buf : ℕ → UInt8) : LocalRelay :=
  { s with inBuf := Function.update s.inBuf u buf }

/-- One turn of the loop of `udp_local_event`; `peer` is the address of the control connection. -/
def udpLocalEvent (s : LocalRelay) (peer : SrcAddr) (w : Fin udpWorkerCount) (u : ℕ)
    (src : SrcAddr) (body : List UInt8) : LocalRelay :=
  let buf := write (s.inBuf u) 0 body
  let s := s.setInBuf u buf
  if body.length ≤ 3 then s
  else
    match socks5UdpParse buf body.length with
    | none => s
    | some _ =>
        if sameIp src peer then
          { s with
            clientSrc := Function.update s.clientSrc u (some src)
            dns :=
              match udpFrameCall buf body.length with
              | some c => s.dns.setPc w (.route u c)
              | none => s.dns }
        else s

/-- One turn of the loop of `udp_remote_event`. -/
def udpRemoteEvent (s : LocalRelay) (u : ℕ) (d : Datagram) : LocalRelay :=
  let off := 22
  let payload := d.payload.take (bufferSize - off)
  if payload = [] then s
  else
    let buf := write (s.inBuf u) off payload
    match s.clientSrc u with
    | none => s.setInBuf u buf
    | some dst =>
        let hdr := socks5UdpEncode d.src.ipAddr d.src.port
        let buf := write buf (headerStart d.src.ipAddr off) hdr
        { s.setInBuf u buf with
          relayed := s.relayed ++
            [(u, dst, slice buf (off - hdr.length) (payload.length + hdr.length))] }

/-- The scan finds session `u` with data that its client has not taken. -/
def Backlogged (s : LocalRelay) (backlog : ℕ → Bool) (u : ℕ) : Prop :=
  s.associate u = false ∧ backlog u = true

instance (s : LocalRelay) (backlog : ℕ → Bool) (u : ℕ) : Decidable (s.Backlogged backlog u) :=
  inferInstanceAs (Decidable (_ ∧ _))

/-- The idle scan of worker `w` reclaims session `u`. -/
def Expired (s : LocalRelay) (w : Fin udpWorkerCount) (now : ℕ) (registered backlog : ℕ → Bool)
    (u : ℕ) : Prop :=
  u ∈ s.dns.connList w ∧ registered u = true ∧ ¬s.Backlogged backlog u ∧
    (∀ k, (s.dns.pend (u, k)).used = false) ∧
    udpConnIdleExpired now (s.lastActive u) udpIdleTimeoutSec = true

instance (s : LocalRelay) (w : Fin udpWorkerCount) (now : ℕ) (registered backlog : ℕ → Bool)
    (u : ℕ) : Decidable (s.Expired w now registered backlog u) :=
  inferInstanceAs (Decidable (_ ∧ _))

def idleScan (s : LocalRelay) (w : Fin udpWorkerCount) (now : ℕ) (registered backlog : ℕ → Bool) :
    LocalRelay :=
  { s with
    lastActive := fun u =>
      if u ∈ s.dns.connList w ∧ s.Backlogged backlog u then now else s.lastActive u
    dns := { s.dns with
      session := fun u =>
        if s.Expired w now registered backlog u then { s.dns.session u with closed := true }
        else s.dns.session u
      connList := Function.update s.dns.connList w
        ((s.dns.connList w).filter fun u => ¬s.Expired w now registered backlog u) } }

/-- The fields of the session that `udp_start_session` opens next. -/
def opened (s : LocalRelay) (associate : Bool) (now : ℕ) : LocalRelay :=
  { s with
    associate := Function.update s.associate s.dns.nSessions associate
    clientSrc := Function.update s.clientSrc s.dns.nSessions none
    lastActive := Function.update s.lastActive s.dns.nSessions now }

/-- Worker `w` can take an event of session `u`. -/
def Ready (s : LocalRelay) (w : Fin udpWorkerCount) (u : ℕ) : Prop :=
  (s.dns.pc w).isIdle = true ∧ u ∈ s.dns.connList w

instance (s : LocalRelay) (w : Fin udpWorkerCount) (u : ℕ) : Decidable (s.Ready w u) :=
  inferInstanceAs (Decidable (_ ∧ _))

/-- One step; `peer u` is the address of the control connection of session `u`. A datagram for a
session that is gone finds no socket, and a worker with nothing to do does nothing. -/
def step (inetPton : InetPton) (peer : ℕ → SrcAddr) (s : LocalRelay) :
    LocalRelayEvent → Option LocalRelay
  | .openSession w remoteOpen associate now =>
      (UdpDns.step inetPton s.dns (.openSession w remoteOpen)).map fun dns =>
        { s.opened associate now with dns := dns }
  | .datagram w u now src body =>
      if u ∉ s.dns.connList w then some s
      else if s.Ready w u ∧ s.associate u = true ∧ body.length ≤ bufferSize then
        some ((s.touched u now).udpLocalEvent (peer u) w u src body)
      else none
  | .remote w u now d =>
      if u ∉ s.dns.connList w then some s
      else if s.Ready w u ∧ s.associate u = true then some ((s.touched u now).udpRemoteEvent u d)
      else none
  | .touch w u now => if s.Ready w u then some (s.touched u now) else none
  | .idleScan w now registered backlog =>
      if (s.dns.pc w).isIdle = true then some (s.idleScan w now registered backlog) else none
  | .dns (.openSession ..) => none
  | .dns (.frame w u body) =>
      if s.associate u = true then none
      else (UdpDns.step inetPton s.dns (.frame w u body)).map fun dns => { s with dns := dns }
  | .dns (.worker w now) =>
      if (s.dns.pc w).isIdle = true then some s
      else (UdpDns.step inetPton s.dns (.worker w now)).map fun dns => { s with dns := dns }
  | .dns ev => (UdpDns.step inetPton s.dns ev).map fun dns => { s with dns := dns }

/-- A datagram for session `u` from another address than its peer, IPv4 and v4-mapped addresses
taken as one, or with a malformed header. -/
def Foreign (peer : ℕ → SrcAddr) (u : ℕ) : LocalRelayEvent → Prop
  | .datagram _ v _ src body => v = u ∧ (src.ipAddr ≠ (peer u).ipAddr ∨
      socks5UdpParse (ofList body) body.length = none)
  | _ => False

instance (peer : ℕ → SrcAddr) (u : ℕ) (ev : LocalRelayEvent) : Decidable (Foreign peer u ev) :=
  match ev with
  | .datagram .. => inferInstanceAs (Decidable (_ ∧ _))
  | .openSession .. | .remote .. | .touch .. | .idleScan .. | .dns _ =>
      inferInstanceAs (Decidable False)

/-- The events without the datagrams that are foreign to session `u`. -/
def withoutForeign (peer : ℕ → SrcAddr) (u : ℕ) (evs : List LocalRelayEvent) : List LocalRelayEvent :=
  evs.filter fun ev => ¬Foreign peer u ev

/-- The idle scan treats session `u` in the same way in both states. -/
def SameScan (u : ℕ) (s t : LocalRelay) : LocalRelayEvent → Prop
  | .idleScan w now registered backlog =>
      s.Expired w now registered backlog u ↔ t.Expired w now registered backlog u
  | _ => True

/-- From `s` and `t` on, every idle scan treats session `u` in the same way in the run and in the
run without the foreign datagrams. -/
def ScansAgree (inetPton : InetPton) (peer : ℕ → SrcAddr) (u : ℕ) :
    LocalRelay → LocalRelay → List LocalRelayEvent → Prop
  | _, _, [] => True
  | s, t, ev :: evs => SameScan u s t ev ∧
      match step inetPton peer s ev, if Foreign peer u ev then some t else step inetPton peer t ev with
      | some s', some t' => ScansAgree inetPton peer u s' t' evs
      | _, _ => True

instance (u : ℕ) (s t : LocalRelay) (ev : LocalRelayEvent) : Decidable (SameScan u s t ev) :=
  match ev with
  | .idleScan .. => inferInstanceAs (Decidable (_ ↔ _))
  | .openSession .. | .datagram .. | .remote .. | .touch .. | .dns _ =>
      inferInstanceAs (Decidable True)

instance ScansAgree.decidable (inetPton : InetPton) (peer : ℕ → SrcAddr) (u : ℕ) :
    ∀ s t evs, Decidable (ScansAgree inetPton peer u s t evs)
  | _, _, [] => isTrue trivial
  | s, t, ev :: evs =>
      match h : step inetPton peer s ev,
        h' : if Foreign peer u ev then some t else step inetPton peer t ev with
      | some s', some t' =>
          haveI := ScansAgree.decidable inetPton peer u s' t' evs
          decidable_of_iff (SameScan u s t ev ∧ ScansAgree inetPton peer u s' t' evs)
            (by rw [ScansAgree, h, h'])
      | none, _ => decidable_of_iff (SameScan u s t ev) (by simp [ScansAgree, h])
      | some _, none => decidable_of_iff (SameScan u s t ev) (by simp [ScansAgree, h'])

end LocalRelay

/-! ### The comparison of addresses -/

/-- The 16 bytes by which `same_ip` compares. -/
def IpAddr.mapped : IpAddr → List UInt8
  | .v4 b => List.replicate 10 0 ++ [0xff, 0xff] ++ b.toList
  | .v6 b => b.toList

theorem isV4Mapped_iff (addr : Vector UInt8 16) :
    isV4Mapped addr = true ↔
      addr.toList.take 12 = List.replicate 10 0 ++ [0xff, 0xff] := by
  unfold isV4Mapped
  rw [beq_iff_eq]
  rfl

theorem drop_v6 (addr : Vector UInt8 16) :
    addr.toList.drop 12 = [getElem addr 12 (by decide), getElem addr 13 (by decide),
      getElem addr 14 (by decide), getElem addr 15 (by decide)] := by
  refine List.ext_getElem (by simp) fun i hi _ => ?_
  have hlt : i < 4 := by simpa using hi
  rcases i with _ | _ | _ | _ | i
  · simp
  · simp
  · simp
  · simp
  · omega

theorem SrcAddr.normalize_eq (a : SrcAddr) : a.normalize = a.ipAddr.mapped := by
  cases a with
  | inet addr port => rfl
  | inet6 addr port =>
      rw [normalize, ipAddr]
      split
      · rename_i hmapped
        rw [IpAddr.mapped, ← (isV4Mapped_iff addr).mp hmapped, ← List.take_append_drop 12 addr.toList,
          drop_v6]
        simp
      · rfl

/-- An IPv6 address that a socket reports as such is not v4-mapped. -/
theorem SrcAddr.not_mapped {a : SrcAddr} {addr : Vector UInt8 16} (h : a.ipAddr = .v6 addr)
    (b : Vector UInt8 4) : addr.toList ≠ List.replicate 10 0 ++ [0xff, 0xff] ++ b.toList := by
  cases a with
  | inet addr' port => cases h
  | inet6 addr' port =>
      rw [ipAddr] at h
      split at h
      · cases h
      · rename_i hmapped
        obtain rfl := IpAddr.v6.inj h
        intro heq
        refine hmapped ((isV4Mapped_iff _).mpr ?_)
        rw [heq]
        rfl

/-- IPv4 and v4-mapped addresses are the same host, and nothing else is. -/
theorem sameIp_iff (a b : SrcAddr) : sameIp a b = true ↔ a.ipAddr = b.ipAddr := by
  rw [sameIp, beq_iff_eq, SrcAddr.normalize_eq, SrcAddr.normalize_eq]
  refine ⟨fun h => ?_, fun h => by rw [h]⟩
  cases ha : a.ipAddr with
  | v4 x =>
      cases hb : b.ipAddr with
      | v4 y =>
          rw [ha, hb] at h
          exact congrArg _ (Vector.toList_inj.mp (List.append_cancel_left h))
      | v6 y =>
          rw [ha, hb] at h
          exact absurd h.symm (SrcAddr.not_mapped hb x)
  | v6 x =>
      cases hb : b.ipAddr with
      | v4 y =>
          rw [ha, hb] at h
          exact absurd h (SrcAddr.not_mapped ha y)
      | v6 y =>
          rw [ha, hb] at h
          exact congrArg _ (Vector.toList_inj.mp h)

/-! ### Two runs -/

/-- The datagram in the buffer is the one that was received, whatever else the buffer holds. -/
theorem socks5UdpParse_write (m : ℕ → UInt8) (body : List UInt8) :
    socks5UdpParse (write m 0 body) body.length = socks5UdpParse (ofList body) body.length := by
  refine socks5UdpParse_congr fun i hi => ?_
  have hwrite := write_add m 0 body hi
  rw [Nat.zero_add] at hwrite
  rw [hwrite, ofList, List.getD_eq_getElem _ _ hi]

theorem udpFrameCall_write (m : ℕ → UInt8) (body : List UInt8) :
    udpFrameCall (write m 0 body) body.length = routeOf body := by
  rw [udpFrameCall_eq_routeOf, slice_write_self]

namespace LocalRelay

variable {inetPton : InetPton} {peer : ℕ → SrcAddr} {u : ℕ} {s t s' : LocalRelay} {ev : LocalRelayEvent}

theorem udpLocalEvent_foreign {w : Fin udpWorkerCount} {src p : SrcAddr} {body : List UInt8}
    (h : src.ipAddr ≠ p.ipAddr ∨ socks5UdpParse (ofList body) body.length = none) :
    s.udpLocalEvent p w u src body = s.setInBuf u (write (s.inBuf u) 0 body) := by
  unfold udpLocalEvent
  simp only
  split
  · rfl
  · rw [socks5UdpParse_write]
    split
    · rfl
    · rename_i hdr hparse
      rcases h with h | h
      · rw [if_neg (fun hsame => h ((sameIp_iff src p).mp hsame))]
      · rw [h] at hparse
        cases hparse

theorem udpLocalEvent_accepted {w : Fin udpWorkerCount} {src p : SrcAddr} {body : List UInt8}
    (h : src.ipAddr = p.ipAddr) (hparse : socks5UdpParse (ofList body) body.length ≠ none) :
    s.udpLocalEvent p w u src body =
      { s.setInBuf u (write (s.inBuf u) 0 body) with
        clientSrc := Function.update s.clientSrc u (some src)
        dns :=
          match routeOf body with
          | some c => s.dns.setPc w (.route u c)
          | none => s.dns } := by
  unfold udpLocalEvent
  have hlen : ¬body.length ≤ 3 := by
    intro hle
    refine hparse ?_
    rw [socks5UdpParse, if_pos (by omega)]
  simp only [if_neg hlen, socks5UdpParse_write, udpFrameCall_write]
  split
  · contradiction
  · rw [if_pos ((sameIp_iff src p).mpr h)]
    rfl

/-- The two states differ at most in the buffer and the last activity of session `u`. -/
structure Agree (u : ℕ) (s t : LocalRelay) : Prop where
  dns : t.dns = s.dns
  associate : t.associate = s.associate
  clientSrc : t.clientSrc = s.clientSrc
  relayed : t.relayed = s.relayed
  inBuf : ∀ v, v ≠ u → t.inBuf v = s.inBuf v
  lastActive : ∀ v, v ≠ u → t.lastActive v = s.lastActive v

theorem Agree.refl (s : LocalRelay) : Agree u s s :=
  ⟨rfl, rfl, rfl, rfl, fun _ _ => rfl, fun _ _ => rfl⟩

theorem update_agree {α : Type*} {f g : ℕ → α} (h : ∀ v, v ≠ u → g v = f v) (k : ℕ) (a : α) :
    ∀ v, v ≠ u → Function.update g k a v = Function.update f k a v := by
  intro v hv
  by_cases hk : v = k
  · rw [hk, Function.update_self, Function.update_self]
  · rw [Function.update_of_ne hk, Function.update_of_ne hk, h v hv]

theorem Agree.touched (h : Agree u s t) (v now : ℕ) : Agree u (s.touched v now) (t.touched v now) :=
  { h with lastActive := update_agree h.lastActive v now }

theorem Agree.setInBuf (h : Agree u s t) {v : ℕ} {b c : ℕ → UInt8} (hbuf : v ≠ u → c = b) :
    Agree u (s.setInBuf v b) (t.setInBuf v c) :=
  { h with
    inBuf := by
      intro k hk
      by_cases hkv : k = v
      · subst hkv
        simp [LocalRelay.setInBuf, hbuf hk]
      · simpa [LocalRelay.setInBuf, hkv] using h.inBuf k hk }

theorem Agree.udpLocalEvent (h : Agree u s t) (p : SrcAddr) (w : Fin udpWorkerCount) (v : ℕ)
    (src : SrcAddr) (body : List UInt8) :
    Agree u (s.udpLocalEvent p w v src body) (t.udpLocalEvent p w v src body) := by
  have hbuf : v ≠ u → write (t.inBuf v) 0 body = write (s.inBuf v) 0 body := fun hv => by
    rw [h.inBuf v hv]
  by_cases hforeign : src.ipAddr ≠ p.ipAddr ∨ socks5UdpParse (ofList body) body.length = none
  · rw [udpLocalEvent_foreign hforeign, udpLocalEvent_foreign hforeign]
    exact h.setInBuf hbuf
  · obtain ⟨hsame, hparse⟩ := not_or.mp hforeign
    rw [udpLocalEvent_accepted (not_not.mp hsame) hparse,
      udpLocalEvent_accepted (not_not.mp hsame) hparse]
    exact { h.setInBuf hbuf with
      dns := by rw [h.dns]
      clientSrc := by rw [h.clientSrc] }

/-- What is relayed to the client is the datagram from 5G, whatever else the buffer holds. -/
theorem relayed_bytes (m : ℕ → UInt8) (d : Datagram) (payload : List UInt8) :
    slice (write (write m 22 payload) (headerStart d.src.ipAddr 22)
        (socks5UdpEncode d.src.ipAddr d.src.port))
      (22 - (socks5UdpEncode d.src.ipAddr d.src.port).length)
      (payload.length + (socks5UdpEncode d.src.ipAddr d.src.port).length) =
        socks5UdpEncode d.src.ipAddr d.src.port ++ payload := by
  have hhdr : (socks5UdpEncode d.src.ipAddr d.src.port).length ≤ 22 := by
    rw [length_socks5UdpEncode]
    rcases length_bytes d.src.ipAddr with ⟨hb, -⟩ | ⟨hb, -⟩ <;> omega
  rw [headerStart_eq _ d.src.port, slice_header m _ _ hhdr]

theorem Agree.udpRemoteEvent (h : Agree u s t) (v : ℕ) (d : Datagram) :
    Agree u (s.udpRemoteEvent v d) (t.udpRemoteEvent v d) := by
  unfold LocalRelay.udpRemoteEvent
  simp only
  split
  · exact h
  · rw [h.clientSrc]
    split
    · exact h.setInBuf fun hv => by rw [h.inBuf v hv]
    · rw [relayed_bytes, relayed_bytes]
      exact { h.setInBuf fun hv => by rw [h.inBuf v hv] with relayed := by rw [h.relayed] }

theorem Agree.expired (h : Agree u s t) {w : Fin udpWorkerCount} {now : ℕ}
    {registered backlog : ℕ → Bool} {v : ℕ} (hv : v ≠ u) :
    s.Expired w now registered backlog v ↔ t.Expired w now registered backlog v := by
  unfold Expired Backlogged
  rw [h.dns, h.associate, h.lastActive v hv]

theorem Agree.idleScan (h : Agree u s t) {w : Fin udpWorkerCount} {now : ℕ}
    {registered backlog : ℕ → Bool}
    (hscan : SameScan u s t (.idleScan w now registered backlog)) :
    Agree u (s.idleScan w now registered backlog) (t.idleScan w now registered backlog) := by
  have hexpired : ∀ v, t.Expired w now registered backlog v ↔
      s.Expired w now registered backlog v := by
    intro v
    by_cases hv : v = u
    · exact hv ▸ hscan.symm
    · exact (h.expired hv).symm
  refine { h with dns := ?_, lastActive := fun v hv => ?_ }
  · simp only [LocalRelay.idleScan, hexpired, h.dns]
  · have hsame : (v ∈ t.dns.connList w ∧ t.Backlogged backlog v) ↔
        (v ∈ s.dns.connList w ∧ s.Backlogged backlog v) := by
      unfold Backlogged
      rw [h.dns, h.associate]
    simp only [LocalRelay.idleScan, hsame, h.lastActive v hv]

theorem Agree.ready (h : Agree u s t) {w : Fin udpWorkerCount} {v : ℕ} :
    t.Ready w v ↔ s.Ready w v := by
  unfold Ready
  rw [h.dns]

theorem Agree.setDns (h : Agree u s t) (dns : UdpDns) :
    Agree u { s with dns := dns } { t with dns := dns } :=
  { h with dns := rfl }

theorem Agree.opened (h : Agree u s t) (associate : Bool) (now : ℕ) :
    Agree u (s.opened associate now) (t.opened associate now) where
  dns := h.dns
  associate := by rw [LocalRelay.opened, LocalRelay.opened, h.associate, h.dns]
  clientSrc := by rw [LocalRelay.opened, LocalRelay.opened, h.clientSrc, h.dns]
  relayed := h.relayed
  inBuf := h.inBuf
  lastActive := by
    rw [LocalRelay.opened, LocalRelay.opened, h.dns]
    exact update_agree h.lastActive _ now

theorem Agree.mapDns (h : Agree u s t) {next : Option UdpDns}
    (hstep : (next.map fun dns => { s with dns := dns }) = some s') :
    ∃ t', (next.map fun dns => { t with dns := dns }) = some t' ∧ Agree u s' t' := by
  obtain ⟨dns, hdns, rfl⟩ := Option.map_eq_some_iff.mp hstep
  exact ⟨_, by rw [hdns]; rfl, h.setDns dns⟩

theorem Agree.foreign (h : Agree u s t) (hev : Foreign peer u ev)
    (hstep : step inetPton peer s ev = some s') : Agree u s' t := by
  cases ev with
  | datagram w v now src body =>
      obtain ⟨rfl, hforeign⟩ := hev
      simp only [step] at hstep
      split at hstep
      · obtain rfl := Option.some.inj hstep
        exact h
      · split at hstep
        · obtain rfl := Option.some.inj hstep
          rw [udpLocalEvent_foreign hforeign]
          refine ⟨h.dns, h.associate, h.clientSrc, h.relayed, fun k hk => ?_, fun k hk => ?_⟩
          · simpa [LocalRelay.setInBuf, LocalRelay.touched, hk] using h.inBuf k hk
          · simpa [LocalRelay.setInBuf, LocalRelay.touched, hk] using h.lastActive k hk
        · cases hstep
  | openSession w remoteOpen associate now | remote w v now d | touch w v now
  | idleScan w now registered backlog | dns ev => exact hev.elim

theorem Agree.step (h : Agree u s t) (hscan : SameScan u s t ev)
    (hstep : LocalRelay.step inetPton peer s ev = some s') :
    ∃ t', LocalRelay.step inetPton peer t ev = some t' ∧ Agree u s' t' := by
  cases ev with
  | openSession w remoteOpen associate now =>
      simp only [LocalRelay.step] at hstep
      obtain ⟨dns, hdns, rfl⟩ := Option.map_eq_some_iff.mp hstep
      refine ⟨{ t.opened associate now with dns := dns }, ?_, (h.opened associate now).setDns dns⟩
      simp only [LocalRelay.step, h.dns, hdns]
      rfl
  | datagram w v now src body =>
      simp only [LocalRelay.step, h.dns, h.associate, h.ready] at hstep ⊢
      split at hstep
      · obtain rfl := Option.some.inj hstep
        exact ⟨t, by rw [if_pos ‹_›], h⟩
      · rw [if_neg ‹_›]
        split at hstep
        · obtain rfl := Option.some.inj hstep
          exact ⟨_, by rw [if_pos ‹_›], (h.touched v now).udpLocalEvent (peer v) w v src body⟩
        · cases hstep
  | remote w v now d =>
      simp only [LocalRelay.step, h.dns, h.associate, h.ready] at hstep ⊢
      split at hstep
      · obtain rfl := Option.some.inj hstep
        exact ⟨t, by rw [if_pos ‹_›], h⟩
      · rw [if_neg ‹_›]
        split at hstep
        · obtain rfl := Option.some.inj hstep
          exact ⟨_, by rw [if_pos ‹_›], (h.touched v now).udpRemoteEvent v d⟩
        · cases hstep
  | touch w v now =>
      simp only [LocalRelay.step, h.ready] at hstep ⊢
      split at hstep
      · obtain rfl := Option.some.inj hstep
        exact ⟨_, by rw [if_pos ‹_›], h.touched v now⟩
      · cases hstep
  | idleScan w now registered backlog =>
      simp only [LocalRelay.step, h.dns] at hstep ⊢
      split at hstep
      · obtain rfl := Option.some.inj hstep
        exact ⟨_, by rw [if_pos ‹_›], h.idleScan hscan⟩
      · cases hstep
  | dns ev =>
      cases ev with
      | openSession w remoteOpen => cases hstep
      | frame w v body =>
          have hassociate : t.associate v = s.associate v := by rw [h.associate]
          simp only [LocalRelay.step, h.dns, hassociate] at hstep ⊢
          split at hstep
          · cases hstep
          · rw [if_neg ‹_›]
            exact h.mapDns hstep
      | worker w now =>
          simp only [LocalRelay.step, h.dns] at hstep ⊢
          split at hstep
          · obtain rfl := Option.some.inj hstep
            exact ⟨t, by rw [if_pos ‹_›], h⟩
          · rw [if_neg ‹_›]
            exact h.mapDns hstep
      | closeSession w v | wake w now | resolver r answer | restart =>
          simp only [LocalRelay.step, h.dns] at hstep ⊢
          exact h.mapDns hstep

theorem withoutForeign_cons (ev : LocalRelayEvent) (evs : List LocalRelayEvent) :
    withoutForeign peer u (ev :: evs) =
      if Foreign peer u ev then withoutForeign peer u evs
      else ev :: withoutForeign peer u evs := by
  unfold withoutForeign
  by_cases hev : Foreign peer u ev
  · rw [List.filter_cons_of_neg (by simpa using hev), if_pos hev]
  · rw [List.filter_cons_of_pos (by simpa using hev), if_neg hev]

/-- The two runs stay together as long as the idle scans treat the session alike. -/
theorem Agree.run {evs : List LocalRelayEvent} (h : Agree u s t)
    (hscans : ScansAgree inetPton peer u s t evs)
    (hrun : run (LocalRelay.step inetPton peer) s evs = some s') :
    ∃ t', run (LocalRelay.step inetPton peer) t (withoutForeign peer u evs) = some t' ∧
      Agree u s' t' := by
  induction evs generalizing s t with
  | nil =>
      obtain rfl := Option.some.inj hrun
      exact ⟨t, rfl, h⟩
  | cons ev evs ih =>
      obtain ⟨s₁, hs₁, hrest⟩ := run_cons_eq_some.mp hrun
      obtain ⟨hscan, hscans⟩ := hscans
      rw [hs₁] at hscans
      rw [withoutForeign_cons]
      by_cases hev : Foreign peer u ev
      · rw [if_pos hev] at hscans ⊢
        exact ih (h.foreign hev hs₁) hscans hrest
      · rw [if_neg hev] at hscans ⊢
        obtain ⟨t₁, ht₁, h₁⟩ := h.step hscan hs₁
        rw [ht₁] at hscans
        obtain ⟨t', ht', h'⟩ := ih h₁ hscans hrest
        exact ⟨t', run_cons_eq_some.mpr ⟨t₁, ht₁, ht'⟩, h'⟩

end LocalRelay

open LocalRelay

/-- Without the datagrams that are foreign to a session, the run does the same to what is sent to
5G, to the frames held, to the jobs and the cache, to the address for the answers and to what is
relayed to the clients, as long as the idle scans find the session idle in both runs or in
neither. -/
theorem source_isolation {inetPton : InetPton} {peer : ℕ → SrcAddr} {u : ℕ}
    {evs : List LocalRelayEvent} {s : LocalRelay}
    (hrun : run (LocalRelay.step inetPton peer) LocalRelay.init evs = some s)
    (hscans : ScansAgree inetPton peer u LocalRelay.init LocalRelay.init evs) :
    ∃ t, run (LocalRelay.step inetPton peer) LocalRelay.init (withoutForeign peer u evs) = some t ∧
      t.dns = s.dns ∧ t.clientSrc = s.clientSrc ∧ t.relayed = s.relayed := by
  obtain ⟨t, ht, hagree⟩ := (Agree.refl LocalRelay.init).run hscans hrun
  exact ⟨t, ht, hagree.dns, hagree.clientSrc, hagree.relayed⟩

def clientAddr : SrcAddr :=
  .inet6 ⟨#[0, 0, 0, 0, 0, 0, 0, 0, 0, 0, 0xff, 0xff, 10, 0, 0, 1], rfl⟩ (4, 0)

def strangerAddr : SrcAddr := .inet (octets 10 0 0 2) (4, 0)

def query : List UInt8 := [0, 0, 0, 1, 8, 8, 8, 8, 0, 53, 0x61]

def strangerSends : List LocalRelayEvent :=
  [.openSession 0 true true 1000, .datagram 0 0 1001 strangerAddr query,
    .datagram 0 0 1002 clientAddr query, .dns (.worker 0 1002),
    .idleScan 0 1005 (fun _ => true) fun _ => false]

theorem source_isolation_strangerSends : ∃ s t,
    run (LocalRelay.step noPton fun _ => clientAddr) LocalRelay.init strangerSends = some s ∧
      run (LocalRelay.step noPton fun _ => clientAddr) LocalRelay.init
        (withoutForeign (fun _ => clientAddr) 0 strangerSends) = some t ∧
      t.dns = s.dns ∧ t.clientSrc = s.clientSrc ∧ t.relayed = s.relayed := by
  obtain ⟨s, hs⟩ := Option.isSome_iff_exists.mp (by decide +kernel :
    (run (LocalRelay.step noPton fun _ => clientAddr) LocalRelay.init strangerSends).isSome = true)
  obtain ⟨t, ht⟩ := source_isolation (u := 0) hs (by decide +kernel)
  exact ⟨s, t, hs, ht⟩

/-- A datagram of a stranger comes after 300 seconds, the scan after 400, and then one of the
client. -/
def strangerKeeps : List LocalRelayEvent :=
  [.openSession 0 true true 1000, .datagram 0 0 1300 strangerAddr [],
    .idleScan 0 1400 (fun _ => true) fun _ => false,
    .datagram 0 0 1401 clientAddr query, .dns (.worker 0 1401)]

/-- The session outlives its timeout, and sends what it would not have sent. -/
theorem stranger_keeps_session : ∃ s t,
    run (LocalRelay.step noPton fun _ => clientAddr) LocalRelay.init strangerKeeps = some s ∧
      run (LocalRelay.step noPton fun _ => clientAddr) LocalRelay.init
        (withoutForeign (fun _ => clientAddr) 0 strangerKeeps) = some t ∧
      s.dns.sent.length = 1 ∧ t.dns.sent.length = 0 := by
  obtain ⟨s, hs, hsent⟩ := Option.map_eq_some_iff.mp (by decide +kernel :
    (run (LocalRelay.step noPton fun _ => clientAddr) LocalRelay.init strangerKeeps).map
      (fun s => s.dns.sent.length) = some 1)
  obtain ⟨t, ht, hsent'⟩ := Option.map_eq_some_iff.mp (by decide +kernel :
    (run (LocalRelay.step noPton fun _ => clientAddr) LocalRelay.init
      (withoutForeign (fun _ => clientAddr) 0 strangerKeeps)).map
        (fun s => s.dns.sent.length) = some 0)
  exact ⟨s, t, hs, ht, hsent, hsent'⟩

end FiveGProxy
