import FiveGProxy.Config
import FiveGProxy.Library.Steps
import FiveGProxy.Protocol.Datagram
import Mathlib.Logic.Function.Basic
import Mathlib.Data.List.FinRange
import Mathlib.Data.List.TakeWhile
import Mathlib.Data.Fintype.Basic

/-!
# Asynchronous resolution of UDP domain frames

A frame with ATYP 0x03 names its destination. The worker looks the name up in a cache; on a miss
it opens a job, queues a request for a resolver thread and holds the frame in its session. The
resolver writes the answer into the job and wakes the worker, which fills the cache and sends the
held frames (`udp_dns.c` and its callers in `simple-socks5.c`).

Each step is one access to state shared between the threads, or one section under a lock. What
only the worker itself touches between two such accesses is part of the step. `answers` and the
frame kept with a held payload are not in the code; they record where an address and a payload
come from.
-/

namespace FiveGProxy

open Memory Steps

/-- The content of a `char host[UDP_DNS_HOST_MAX]`. It always fits, so the bounded copies of the
code cut nothing off. -/
structure Host where
  bytes : List UInt8
  fits : bytes.length < udpDnsHostMax
  deriving DecidableEq

theorem Host.eq_of_bytes {h h' : Host} (heq : h.bytes = h'.bytes) : h = h' := by
  cases h
  cases h'
  cases heq
  rfl

/-- A `sockaddr_storage` with an address family, an address and a port. -/
structure SockAddr where
  addr : IpAddr
  port : UInt8 × UInt8
  deriving DecidableEq

/-! ### Frames -/

/-- The domain of a frame with ATYP 0x03; `addr` begins with its length. -/
def RouteCall.domain (c : RouteCall) : List UInt8 :=
  (c.addr.drop 1).take (c.addr.headD 0).toNat

/-- The domain as the C string that the code works with: it ends at the first NUL. -/
def RouteCall.host (c : RouteCall) : Host where
  bytes := c.domain.takeWhile (· ≠ 0)
  fits := by
    have htake : (c.domain.takeWhile (· ≠ 0)).length ≤ c.domain.length :=
      (List.takeWhile_sublist _).length_le
    have hdomain : c.domain.length ≤ (c.addr.headD 0).toNat := List.length_take_le _ _
    exact (htake.trans hdomain).trans_lt (c.addr.headD 0).toNat_lt

theorem RouteCall.host_bytes {c : RouteCall} (h : 0 ∉ c.domain) : c.host.bytes = c.domain := by
  refine List.takeWhile_eq_self_iff.mpr fun b hb => ?_
  have hne : b ≠ 0 := by
    rintro rfl
    exact h hb
  simpa using hne

theorem socks5UdpParse_domain {dgram : ℕ → UInt8} {len : ℕ} {h : UdpHeader}
    (hparse : socks5UdpParse dgram len = some h) (hatyp : h.atyp = socks5AtypDomain) :
    h.addr = 4 ∧ dgram 4 ≠ 0 := by
  unfold socks5UdpParse at hparse
  split_ifs at hparse with _ _ _ hv4 _ hv6 _ _ _ hzero
  · cases hparse
    exact absurd (hv4.symm.trans hatyp) (by decide)
  · cases hparse
    exact absurd (hv6.symm.trans hatyp) (by decide)
  · cases hparse
    exact ⟨rfl, hzero⟩

/-- A frame that `socks5_udp_parse` accepts does not name the empty domain. -/
theorem domain_ne_nil {body : List UInt8} {c : RouteCall} (h : routeOf body = some c)
    (hatyp : c.atyp = socks5AtypDomain) : c.domain ≠ [] := by
  unfold routeOf udpFrameCall at h
  split at h
  case h_1 => cases h
  case h_2 hdr hparse =>
    split at h
    case isFalse => cases h
    case isTrue =>
      cases h
      obtain ⟨haddr, hzero⟩ := socks5UdpParse_domain hparse hatyp
      have hdomain : hdr.atyp = socks5AtypDomain := hatyp
      have hbytes : hdr.addrBytes (ofList body) =
          ofList body 4 :: slice (ofList body) 5 (ofList body 4).toNat := by
        unfold UdpHeader.addrBytes
        rw [if_neg (by rw [hdomain]; decide), if_neg (by rw [hdomain]; decide), haddr, slice_add]
        rfl
      intro hnil
      have hlength := congrArg List.length hnil
      simp [RouteCall.domain, hbytes] at hlength
      exact hzero (UInt8.toNat_inj.mp hlength)

/-- A frame that names a domain the code keeps whole. -/
structure UdpDns.DomainFrame (c : RouteCall) : Prop where
  atyp : c.atyp = socks5AtypDomain
  host_bytes : c.host.bytes = c.domain
  ne_nil : c.domain ≠ []

theorem UdpDns.DomainFrame.domain_eq {c c' : RouteCall} (h : DomainFrame c) (h' : DomainFrame c')
    (hhost : c.host = c'.host) : c.domain = c'.domain := by
  rw [← h.host_bytes, ← h'.host_bytes, hhost]

def buildSockaddr (atyp : UInt8) (addr : List UInt8) (port : UInt8 × UInt8) : Option SockAddr :=
  if atyp = socks5AtypIpv4 then
    some ⟨.v4 (Vector.ofFn fun i : Fin 4 => addr.getD i 0), port⟩
  else if atyp = socks5AtypIpv6 then
    some ⟨.v6 (Vector.ofFn fun i : Fin 16 => addr.getD i 0), port⟩
  else none

/-- `inet_pton` for the two address families. -/
structure InetPton where
  v6 : List UInt8 → Option (Vector UInt8 16)
  v4 : List UInt8 → Option (Vector UInt8 4)

/-- `inet_pton` when no address is known. -/
def noPton : InetPton := ⟨fun _ => none, fun _ => none⟩

/-- `none` is the return value `-1`. -/
def sockaddrFromIpPort (inetPton : InetPton) (ip : List UInt8) (port : UInt8 × UInt8) :
    Option SockAddr :=
  if ip = [] then none
  else
    match inetPton.v6 ip with
    | some a => some ⟨.v6 a, port⟩
    | none => (inetPton.v4 ip).map fun a => ⟨.v4 a, port⟩

/-! ### The cache -/

structure DnsCacheEntry where
  host : Host
  sa : SockAddr
  expire : ℕ
  used : Bool

abbrev DnsCache := Fin dnsResolveCacheSlots → DnsCacheEntry

def dnsCacheLookup (cache : DnsCache) (host : Host) (now : ℕ) : Option SockAddr :=
  if host.bytes = [] then none
  else
    ((List.finRange dnsResolveCacheSlots).find? fun i =>
      (cache i).used && decide (now < (cache i).expire) && decide ((cache i).host = host)).map
        fun i => (cache i).sa

def dnsCacheSlot (cache : DnsCache) (now : ℕ) :
    List (Fin dnsResolveCacheSlots) → Fin dnsResolveCacheSlots → Fin dnsResolveCacheSlots
  | [], slot => slot
  | i :: rest, slot =>
      if (cache i).used = false ∨ (cache i).expire ≤ now then i
      else dnsCacheSlot cache now rest (if (cache i).expire < (cache slot).expire then i else slot)

def dnsCachePut (cache : DnsCache) (host : Host) (sa : SockAddr) (now : ℕ) : DnsCache :=
  if host.bytes = [] then cache
  else
    Function.update cache (dnsCacheSlot cache now (List.finRange dnsResolveCacheSlots) 0)
      ⟨host, sa, now + dnsResolveTtlSec, true⟩

theorem dnsCacheLookup_eq_some {cache : DnsCache} {host : Host} {now : ℕ} {sa : SockAddr}
    (h : dnsCacheLookup cache host now = some sa) :
    ∃ i, (cache i).used = true ∧ (cache i).host = host ∧ (cache i).sa = sa := by
  unfold dnsCacheLookup at h
  split at h
  case isTrue => cases h
  case isFalse =>
    obtain ⟨i, hfind, rfl⟩ := Option.map_eq_some_iff.mp h
    have hi := List.find?_some hfind
    simp only [Bool.and_eq_true, decide_eq_true_eq] at hi
    exact ⟨i, hi.1.1, hi.2, rfl⟩

/-- An entry after `dns_cache_put` is an old one or the new one. -/
theorem dnsCachePut_entry (cache : DnsCache) (host : Host) (sa : SockAddr) (now : ℕ)
    (i : Fin dnsResolveCacheSlots) :
    dnsCachePut cache host sa now i = cache i ∨
      (dnsCachePut cache host sa now i).host = host ∧ (dnsCachePut cache host sa now i).sa = sa := by
  unfold dnsCachePut
  split
  case isTrue => exact Or.inl rfl
  case isFalse =>
    rw [Function.update_apply]
    split
    case isTrue => exact Or.inr ⟨rfl, rfl⟩
    case isFalse => exact Or.inl rfl

/-! ### Jobs and held frames -/

inductive UdpDnsState
  | free
  | inflight
  | doneOk
  | doneFail
  deriving DecidableEq

structure UdpDnsJob where
  state : UdpDnsState
  host : Host
  port : UInt8 × UInt8
  ip : List UInt8

structure UdpDnsPend where
  used : Bool
  host : Host
  port : UInt8 × UInt8
  payload : List UInt8
  /-- The frame that brought the payload. -/
  origin : RouteCall

structure UdpDnsReq where
  worker : Fin udpWorkerCount
  job : Fin udpDnsJobCount
  host : Host

def UdpDnsReq.key (q : UdpDnsReq) : Fin udpWorkerCount × Fin udpDnsJobCount := (q.worker, q.job)

def udpDnsJobFind (jobs : Fin udpDnsJobCount → UdpDnsJob) (host : Host) :
    Option (Fin udpDnsJobCount) :=
  if host.bytes = [] then none
  else
    (List.finRange udpDnsJobCount).find? fun i =>
      decide ((jobs i).state ≠ .free) && decide ((jobs i).host = host)

theorem udpDnsJobFind_eq_some {jobs : Fin udpDnsJobCount → UdpDnsJob} {host : Host}
    {i : Fin udpDnsJobCount} (h : udpDnsJobFind jobs host = some i) :
    (jobs i).state ≠ .free ∧ (jobs i).host = host := by
  unfold udpDnsJobFind at h
  split at h
  case isTrue => cases h
  case isFalse => simpa using List.find?_some h

theorem udpDnsJobFind_eq_none {jobs : Fin udpDnsJobCount → UdpDnsJob} {host : Host}
    (hne : host.bytes ≠ []) (h : udpDnsJobFind jobs host = none) (i : Fin udpDnsJobCount)
    (hi : (jobs i).state ≠ .free) : (jobs i).host ≠ host := by
  rw [udpDnsJobFind, if_neg hne, List.find?_eq_none] at h
  simpa [hi] using h i (List.mem_finRange i)

def udpDnsJobAlloc (jobs : Fin udpDnsJobCount → UdpDnsJob) : Option (Fin udpDnsJobCount) :=
  (List.finRange udpDnsJobCount).find? fun i => decide ((jobs i).state = .free)

theorem udpDnsJobAlloc_eq_some {jobs : Fin udpDnsJobCount → UdpDnsJob} {i : Fin udpDnsJobCount}
    (h : udpDnsJobAlloc jobs = some i) : (jobs i).state = .free := by
  simpa using List.find?_some h

def udpDnsPendFreeSlot (pend : Fin udpDnsPendSlots → UdpDnsPend) : Option (Fin udpDnsPendSlots) :=
  (List.finRange udpDnsPendSlots).find? fun k => !(pend k).used

def udpDnsHoldOk (payloadLen : ℕ) : Bool :=
  if payloadLen = 0 then false else decide (payloadLen ≤ udpDnsPendFrameMax)

/-! ### The threads -/

structure UdpSession where
  magic : Bool
  closed : Bool
  /-- `remote_udp_fd` is not negative. -/
  remoteOpen : Bool
  widx : Fin udpWorkerCount

/-- A datagram handed to `sendto` on the 5G socket of a session. -/
structure SentDatagram where
  session : ℕ
  payload : List UInt8
  dst : SockAddr
  /-- The frame that brought the payload. -/
  origin : RouteCall

/-- Where a worker is: in `udp_route_frame` and `udp_dns_defer` for a frame of session `u`, or in
`udp_dns_drain` at job `i`. -/
inductive UdpWorkerPc
  | idle
  | route (u : ℕ) (c : RouteCall)
  | defer (u : ℕ) (c : RouteCall)
  | enqueue (u : ℕ) (c : RouteCall) (ji : Fin udpDnsJobCount)
  | hold (u : ℕ) (c : RouteCall) (ji : Option (Fin udpDnsJobCount))
  | drain (i : ℕ) (now : ℕ)
  | put (i : Fin udpDnsJobCount) (dst : SockAddr) (now : ℕ)
  | flush (i : Fin udpDnsJobCount) (dst : SockAddr) (now : ℕ)
  | drop (i : Fin udpDnsJobCount) (now : ℕ)
  | free (i : Fin udpDnsJobCount) (now : ℕ)

def UdpWorkerPc.serves : UdpWorkerPc → Option ℕ
  | route u _ | defer u _ | enqueue u _ _ | hold u _ _ => some u
  | _ => none

def UdpWorkerPc.isIdle : UdpWorkerPc → Bool
  | idle => true
  | _ => false

inductive ResolverPc
  | wait
  | resolve (q : UdpDnsReq)
  | write (q : UdpDnsReq) (ip : List UInt8)
  | publish (q : UdpDnsReq) (ok : Bool)
  | wake (q : UdpDnsReq)

def ResolverPc.isWaiting : ResolverPc → Bool
  | wait => true
  | _ => false

structure UdpDns where
  cache : DnsCache
  queue : List UdpDnsReq
  jobs : Fin udpWorkerCount × Fin udpDnsJobCount → UdpDnsJob
  /-- The wake-up pipe of the worker is readable. -/
  woken : Fin udpWorkerCount → Bool
  nSessions : ℕ
  session : ℕ → UdpSession
  pend : ℕ × Fin udpDnsPendSlots → UdpDnsPend
  /-- The sessions of a worker, from `conn_list_head` on. -/
  connList : Fin udpWorkerCount → List ℕ
  pc : Fin udpWorkerCount → UdpWorkerPc
  resolver : Fin udpDnsResolverThreads → ResolverPc
  /-- What `request_java_resolve_host` has returned, with the name it was asked for. -/
  answers : List (Host × List UInt8)
  sent : List SentDatagram

inductive UdpDnsEvent
  /-- `udp_start_session` links a session of worker `w`. -/
  | openSession (w : Fin udpWorkerCount) (remoteOpen : Bool)
  /-- A session is unlinked and closed. -/
  | closeSession (w : Fin udpWorkerCount) (u : ℕ)
  /-- A receive path of session `u` has a complete datagram and calls `udp_route_frame`. -/
  | frame (w : Fin udpWorkerCount) (u : ℕ) (body : List UInt8)
  /-- The worker finds its pipe readable and enters `udp_dns_drain`. -/
  | wake (w : Fin udpWorkerCount) (now : ℕ)
  | worker (w : Fin udpWorkerCount) (now : ℕ)
  | resolver (r : Fin udpDnsResolverThreads) (answer : Option (List UInt8))
  /-- The engine is stopped and started again; the cache stays. -/
  | restart

namespace UdpDns

def emptyHost : Host := ⟨[], by decide⟩

def emptyJob : UdpDnsJob := ⟨.free, emptyHost, (0, 0), []⟩

def emptyPend : UdpDnsPend := ⟨false, emptyHost, (0, 0), [], ⟨0, [], (0, 0), []⟩⟩

def init : UdpDns where
  cache := fun _ => ⟨emptyHost, ⟨.v4 (Vector.replicate 4 0), (0, 0)⟩, 0, false⟩
  queue := []
  jobs := fun _ => emptyJob
  woken := fun _ => false
  nSessions := 0
  session := fun _ => ⟨false, true, false, 0⟩
  pend := fun _ => emptyPend
  connList := fun _ => []
  pc := fun _ => .idle
  resolver := fun _ => .wait
  answers := []
  sent := []

def setPc (s : UdpDns) (w : Fin udpWorkerCount) (pc : UdpWorkerPc) : UdpDns :=
  { s with pc := Function.update s.pc w pc }

def setJob (s : UdpDns) (key : Fin udpWorkerCount × Fin udpDnsJobCount) (j : UdpDnsJob) : UdpDns :=
  { s with jobs := Function.update s.jobs key j }

def setResolver (s : UdpDns) (r : Fin udpDnsResolverThreads) (pc : ResolverPc) : UdpDns :=
  { s with resolver := Function.update s.resolver r pc }

/-- `udp_send_5g`. -/
def udpSend5g (s : UdpDns) (u : ℕ) (origin : RouteCall) (payload : List UInt8) (dst : SockAddr) :
    UdpDns :=
  if (s.session u).remoteOpen = false ∨ payload = [] then s
  else { s with sent := s.sent ++ [⟨u, payload, dst, origin⟩] }

def pendSlots (s : UdpDns) (w : Fin udpWorkerCount) : List (ℕ × Fin udpDnsPendSlots) :=
  (s.connList w).flatMap fun u => (List.finRange udpDnsPendSlots).map fun k => (u, k)

/-- The body of the loops of `udp_dns_flush_pending` and `udp_dns_drop_pending`. -/
def takeSlot (host : Host) (take : UdpDns → ℕ → UdpDnsPend → UdpDns) (s : UdpDns)
    (slot : ℕ × Fin udpDnsPendSlots) : UdpDns :=
  if (s.session slot.1).magic = true ∧ (s.pend slot).used = true ∧ (s.pend slot).host = host then
    let t := take s slot.1 (s.pend slot)
    { t with pend := Function.update t.pend slot { s.pend slot with used := false } }
  else s

def udpDnsFlushPending (s : UdpDns) (w : Fin udpWorkerCount) (host : Host) (dst : SockAddr) : UdpDns :=
  (s.pendSlots w).foldl
    (takeSlot host fun s u p =>
      if (s.session u).closed = true ∨ (s.session u).remoteOpen = false then s
      else s.udpSend5g u p.origin p.payload dst) s

def udpDnsDropPending (s : UdpDns) (w : Fin udpWorkerCount) (host : Host) : UdpDns :=
  (s.pendSlots w).foldl (takeSlot host fun s _ _ => s) s

theorem mem_pendSlots {s : UdpDns} {w : Fin udpWorkerCount} {slot : ℕ × Fin udpDnsPendSlots} :
    slot ∈ s.pendSlots w ↔ slot.1 ∈ s.connList w := by
  obtain ⟨u, k⟩ := slot
  simp [pendSlots, eq_comm]

def Takes (dst : Option SockAddr) (take : UdpDns → ℕ → UdpDnsPend → UdpDns) : Prop :=
  ∀ s u p, ∃ sent, take s u p = { s with sent := sent } ∧
    ∀ x ∈ sent, x ∈ s.sent ∨ ∃ d, dst = some d ∧ x = ⟨u, p.payload, d, p.origin⟩

/-- The loops clear the matching slots, leave the others, and send only what they clear. -/
theorem foldl_takeSlot {host : Host} {dst : Option SockAddr}
    {take : UdpDns → ℕ → UdpDnsPend → UdpDns} (htake : Takes dst take)
    (slots : List (ℕ × Fin udpDnsPendSlots)) (s : UdpDns) :
    ∃ sent pend, slots.foldl (takeSlot host take) s = { s with sent := sent, pend := pend } ∧
      (∀ slot, (pend slot).used = true → pend slot = s.pend slot) ∧
      (∀ slot ∈ slots, (s.session slot.1).magic = true → (pend slot).used = true →
        (pend slot).host ≠ host) ∧
      ∀ x ∈ sent, x ∈ s.sent ∨ ∃ d slot, dst = some d ∧ slot ∈ slots ∧
        (s.pend slot).used = true ∧ (s.pend slot).host = host ∧
        x = ⟨slot.1, (s.pend slot).payload, d, (s.pend slot).origin⟩ := by
  induction slots generalizing s with
  | nil => exact ⟨s.sent, s.pend, rfl, fun _ _ => rfl, (by rintro _ ⟨⟩), fun x hx => Or.inl hx⟩
  | cons slot rest ih =>
      obtain ⟨sent, pend, heq, hold, hclear, hsent⟩ := ih (takeSlot host take s slot)
      by_cases hmatch : (s.session slot.1).magic = true ∧ (s.pend slot).used = true ∧
          (s.pend slot).host = host
      · obtain ⟨sent₁, htaken, hsent₁⟩ := htake s slot.1 (s.pend slot)
        have hhead : takeSlot host take s slot =
            { s with
              sent := sent₁
              pend := Function.update s.pend slot { s.pend slot with used := false } } := by
          rw [takeSlot, if_pos hmatch, htaken]
        rw [hhead] at heq hold hclear hsent
        dsimp only at hold hclear hsent
        have hother : ∀ slot', (pend slot').used = true → slot' ≠ slot := by
          rintro slot' hused rfl
          rw [hold _ hused, Function.update_self] at hused
          cases hused
        refine ⟨sent, pend, ?_, fun slot' hused => ?_, fun slot' hmem hmagic hused => ?_,
          fun x hx => ?_⟩
        · rw [List.foldl_cons, hhead, heq]
        · exact (hold slot' hused).trans (Function.update_of_ne (hother slot' hused) _ _)
        · rcases List.mem_cons.mp hmem with rfl | hrest
          · exact absurd rfl (hother _ hused)
          · exact hclear slot' hrest hmagic hused
        · rcases hsent x hx with hx₁ | ⟨d, slot', hd, hmem, hused, hhost, rfl⟩
          · rcases hsent₁ x hx₁ with hx₀ | ⟨d, hd, rfl⟩
            · exact Or.inl hx₀
            · exact Or.inr ⟨d, slot, hd, List.mem_cons_self, hmatch.2.1, hmatch.2.2, rfl⟩
          · have hne : slot' ≠ slot := by
              rintro rfl
              rw [Function.update_self] at hused
              cases hused
            rw [Function.update_of_ne hne] at hused hhost ⊢
            exact Or.inr ⟨d, slot', hd, List.mem_cons_of_mem _ hmem, hused, hhost, rfl⟩
      · have hhead : takeSlot host take s slot = s := if_neg hmatch
        rw [hhead] at heq hold hclear hsent
        refine ⟨sent, pend, ?_, hold, fun slot' hmem hmagic hused => ?_, fun x hx => ?_⟩
        · rw [List.foldl_cons, hhead, heq]
        · rcases List.mem_cons.mp hmem with rfl | hrest
          · intro hhost
            have hsame := hold _ hused
            rw [hsame] at hused hhost
            exact hmatch ⟨hmagic, hused, hhost⟩
          · exact hclear slot' hrest hmagic hused
        · exact (hsent x hx).imp_right fun ⟨d, slot', hd, hmem, hfrom⟩ =>
            ⟨d, slot', hd, List.mem_cons_of_mem _ hmem, hfrom⟩

/-- `udp_dns_defer` puts the frame into a free slot of the session. -/
def holdFrame (s : UdpDns) (u : ℕ) (c : RouteCall) : UdpDns :=
  if udpDnsHoldOk c.payload.length then
    match udpDnsPendFreeSlot fun k => s.pend (u, k) with
    | some k => { s with pend := Function.update s.pend (u, k) ⟨true, c.host, c.port, c.payload, c⟩ }
    | none => s
  else s

/-- `udp_route_frame`, `udp_dns_defer` and `udp_dns_drain`. -/
def workerStep (inetPton : InetPton) (s : UdpDns) (w : Fin udpWorkerCount) (now : ℕ) : Option UdpDns :=
  match s.pc w with
  | .idle => none
  | .route u c =>
      if c.atyp ≠ socks5AtypDomain then
        match buildSockaddr c.atyp c.addr c.port with
        | some dst => some ((s.udpSend5g u c c.payload dst).setPc w .idle)
        | none => some (s.setPc w .idle)
      else if c.addr.headD 0 = 0 then
        some (s.setPc w .idle)
      else
        match dnsCacheLookup s.cache c.host now with
        | some dst => some ((s.udpSend5g u c c.payload dst).setPc w .idle)
        | none => some (s.setPc w (.defer u c))
  | .defer u c =>
      match udpDnsJobFind (fun i => s.jobs (w, i)) c.host with
      | some ji => some (s.setPc w (.hold u c (some ji)))
      | none =>
          match udpDnsJobAlloc fun i => s.jobs (w, i) with
          | some ji =>
              some ((s.setJob (w, ji) ⟨.inflight, c.host, c.port, []⟩).setPc w (.enqueue u c ji))
          | none => some (s.setPc w (.hold u c none))
  | .enqueue u c ji =>
      if s.queue.length < udpDnsQueueMax then
        some (setPc { s with queue := s.queue ++ [⟨w, ji, c.host⟩] } w (.hold u c (some ji)))
      else
        some ((s.setJob (w, ji) { s.jobs (w, ji) with state := .free }).setPc w (.hold u c none))
  | .hold u c (some _) => some ((s.holdFrame u c).setPc w .idle)
  | .hold _ _ none => some (s.setPc w .idle)
  | .drain i now' =>
      if h : i < udpDnsJobCount then
        match (s.jobs (w, ⟨i, h⟩)).state with
        | .doneOk =>
            match sockaddrFromIpPort inetPton (s.jobs (w, ⟨i, h⟩)).ip (s.jobs (w, ⟨i, h⟩)).port with
            | some dst => some (s.setPc w (.put ⟨i, h⟩ dst now'))
            | none => some (s.setPc w (.drop ⟨i, h⟩ now'))
        | .doneFail => some (s.setPc w (.drop ⟨i, h⟩ now'))
        | .free | .inflight => some (s.setPc w (.drain (i + 1) now'))
      else
        some (s.setPc w .idle)
  | .put i dst now' =>
      some (setPc { s with cache := dnsCachePut s.cache (s.jobs (w, i)).host dst now' } w
        (.flush i dst now'))
  | .flush i dst now' =>
      some ((s.udpDnsFlushPending w (s.jobs (w, i)).host dst).setPc w (.free i now'))
  | .drop i now' => some ((s.udpDnsDropPending w (s.jobs (w, i)).host).setPc w (.free i now'))
  | .free i now' =>
      some ((s.setJob (w, i) { s.jobs (w, i) with state := .free }).setPc w (.drain (i + 1) now'))

/-- `udp_dns_resolver_thread`; `answer` is what `request_java_resolve_host` writes when it
returns 0. -/
def resolverStep (s : UdpDns) (r : Fin udpDnsResolverThreads) (answer : Option (List UInt8)) :
    Option UdpDns :=
  match s.resolver r with
  | .wait =>
      match s.queue with
      | [] => none
      | q :: rest => some (setResolver { s with queue := rest } r (.resolve q))
  | .resolve q =>
      match answer with
      | some ip =>
          some (setResolver { s with answers := s.answers ++ [(q.host, ip)] } r
            (if ip ≠ [] ∧ ip.length < udpDnsHostMax then .write q ip else .publish q false))
      | none => some (s.setResolver r (.publish q false))
  | .write q ip =>
      some ((s.setJob q.key { s.jobs q.key with ip := ip }).setResolver r (.publish q true))
  | .publish q ok =>
      some ((s.setJob q.key
        { s.jobs q.key with state := if ok then .doneOk else .doneFail }).setResolver r (.wake q))
  | .wake q =>
      some (setResolver { s with woken := Function.update s.woken q.worker true } r .wait)

def Quiet (s : UdpDns) : Prop :=
  (∀ w, (s.pc w).isIdle = true) ∧ (∀ r, (s.resolver r).isWaiting = true) ∧ s.queue.isEmpty = true

instance (s : UdpDns) : Decidable s.Quiet := inferInstanceAs (Decidable (_ ∧ _))

def step (inetPton : InetPton) (s : UdpDns) : UdpDnsEvent → Option UdpDns
  | .openSession w remoteOpen =>
      some { s with
        nSessions := s.nSessions + 1
        session := Function.update s.session s.nSessions ⟨true, false, remoteOpen, w⟩
        pend := fun slot => if slot.1 = s.nSessions then emptyPend else s.pend slot
        connList := Function.update s.connList w (s.nSessions :: s.connList w) }
  | .closeSession w u =>
      if (s.pc w).serves = some u then none
      else
        some { s with
          session := Function.update s.session u { s.session u with closed := true }
          connList := Function.update s.connList w ((s.connList w).erase u) }
  | .frame w u body =>
      if (s.pc w).isIdle = true ∧ u ∈ s.connList w then
        (routeOf body).map fun c => s.setPc w (.route u c)
      else none
  | .wake w now =>
      if (s.pc w).isIdle = true ∧ s.woken w = true then
        some (setPc { s with woken := Function.update s.woken w false } w (.drain 0 now))
      else none
  | .worker w now => s.workerStep inetPton w now
  | .resolver r answer => s.resolverStep r answer
  | .restart =>
      if s.Quiet then
        some { s with
          jobs := fun key => { s.jobs key with state := .free, host := emptyHost, ip := [] }
          woken := fun _ => false
          connList := fun _ => [] }
      else none

end UdpDns

end FiveGProxy
