import FiveGProxy.UdpDns.Requests

/-!
# Where domain frames are sent

A job keeps the port of the frame that opened it, and the cache keeps a whole socket address, so
a name that is used with two ports mixes them up (`other_port_mixed_up`). The address is right in
every run; the port is right when no frame meets an entry or a job made for another port
(`dns_destination_fidelity`).
-/

namespace FiveGProxy

open Steps

/-- The datagram is the payload of its frame, for an address that a resolver has returned for the
domain of the frame, and for the port of the frame. -/
def SentDatagram.Faithful (inetPton : InetPton) (answers : List (Host × List UInt8))
    (x : SentDatagram) : Prop :=
  x.origin.atyp = socks5AtypDomain →
    x.payload = x.origin.payload ∧
      ∃ host ip, host.bytes = x.origin.domain ∧ (host, ip) ∈ answers ∧
        sockaddrFromIpPort inetPton ip x.origin.port = some x.dst

namespace UdpDns

/-- The condition on a step of a worker: a domain frame that a cache hit sends finds an entry with
its own port, and a frame that is held waits for a job with its own port. -/
def SamePortAt (s : UdpDns) (w : Fin udpWorkerCount) (now : ℕ) : UdpWorkerPc → Prop
  | .route u c =>
      c.atyp = socks5AtypDomain → (s.session u).remoteOpen = true →
        ∀ dst ∈ dnsCacheLookup s.cache c.host now, dst.port = c.port
  | .hold u c (some ji) =>
      udpDnsHoldOk c.payload.length = true →
        (udpDnsPendFreeSlot fun k => s.pend (u, k)).isSome = true →
          (s.jobs (w, ji)).port = c.port
  | _ => True

instance (s : UdpDns) (w : Fin udpWorkerCount) (now : ℕ) : DecidablePred (SamePortAt s w now)
  | .route _ c => inferInstanceAs (Decidable (c.atyp = socks5AtypDomain → _))
  | .hold _ c (some _) => inferInstanceAs (Decidable (udpDnsHoldOk c.payload.length = true → _))
  | .hold _ _ none | .idle | .defer _ _ | .enqueue _ _ _ | .drain _ _ | .put _ _ _ | .flush _ _ _
  | .drop _ _ | .free _ _ => inferInstanceAs (Decidable True)

def SamePort (s : UdpDns) : UdpDnsEvent → Prop
  | .frame _ _ body => ∀ c ∈ routeOf body, c.atyp = socks5AtypDomain → 0 ∉ c.domain
  | .worker w now => SamePortAt s w now (s.pc w)
  | _ => True

instance (s : UdpDns) : DecidablePred (SamePort s)
  | .frame _ _ body => inferInstanceAs (Decidable (∀ c ∈ routeOf body, _ → 0 ∉ c.domain))
  | .worker w now => inferInstanceAs (Decidable (SamePortAt s w now (s.pc w)))
  | .openSession _ _ | .closeSession _ _ | .wake _ _ | .resolver _ _ | .restart =>
      inferInstanceAs (Decidable True)

/-! ### The invariant -/

/-- What the jobs hold. -/
structure Jobs (s : UdpDns) : Prop where
  answered : ∀ key, (s.jobs key).state = .doneOk → ((s.jobs key).host, (s.jobs key).ip) ∈ s.answers
  toWrite : ∀ r q ip, s.resolver r = .write q ip → (q.host, ip) ∈ s.answers
  written : ∀ r q, s.resolver r = .publish q true → (q.host, (s.jobs q.key).ip) ∈ s.answers
  unique : ∀ w i j, (s.jobs (w, i)).state ≠ .free → (s.jobs (w, j)).state ≠ .free →
    (s.jobs (w, i)).host = (s.jobs (w, j)).host → i = j

/-- A held payload is that of its frame. -/
structure FromFrame (p : UdpDnsPend) : Prop where
  frame : DomainFrame p.origin
  host : p.host = p.origin.host
  port : p.port = p.origin.port
  payload : p.payload = p.origin.payload

def HasJob (s : UdpDns) (w : Fin udpWorkerCount) (p : UdpDnsPend) : Prop :=
  ∃ j, (s.jobs (w, j)).state ≠ .free ∧ (s.jobs (w, j)).host = p.host ∧ (s.jobs (w, j)).port = p.port

/-- What the sessions hold. -/
structure Held (s : UdpDns) : Prop where
  listed : ∀ w, ∀ u ∈ s.connList w,
    u < s.nSessions ∧ (s.session u).widx = w ∧ (s.session u).magic = true
  served : ∀ w u, (s.pc w).serves = some u → u < s.nSessions ∧ (s.session u).widx = w
  pend : ∀ w, ∀ u ∈ s.connList w, ∀ k, (s.pend (u, k)).used = true →
    FromFrame (s.pend (u, k)) ∧ s.HasJob w (s.pend (u, k))

def WorkerOk (inetPton : InetPton) (s : UdpDns) (w : Fin udpWorkerCount) : UdpWorkerPc → Prop
  | .route _ c => c.atyp = socks5AtypDomain → DomainFrame c
  | .defer _ c | .hold _ c none => DomainFrame c
  | .enqueue _ c _ => DomainFrame c ∧ s.NoneHeld w c.host
  | .hold _ c (some ji) =>
      DomainFrame c ∧ (s.jobs (w, ji)).state ≠ .free ∧ (s.jobs (w, ji)).host = c.host
  | .put i dst _ | .flush i dst _ =>
      (s.jobs (w, i)).state = .doneOk ∧
        sockaddrFromIpPort inetPton (s.jobs (w, i)).ip (s.jobs (w, i)).port = some dst
  | .drop i _ => (s.jobs (w, i)).state = .doneOk ∨ (s.jobs (w, i)).state = .doneFail
  | .free i _ =>
      ((s.jobs (w, i)).state = .doneOk ∨ (s.jobs (w, i)).state = .doneFail) ∧
        s.NoneHeld w (s.jobs (w, i)).host
  | .idle | .drain _ _ => True

def CacheOk (inetPton : InetPton) (cache : DnsCache) (answers : List (Host × List UInt8)) : Prop :=
  ∀ i, (cache i).used = true → ∃ ip, ((cache i).host, ip) ∈ answers ∧
    sockaddrFromIpPort inetPton ip (cache i).sa.port = some (cache i).sa

structure DnsInv (inetPton : InetPton) (s : UdpDns) : Prop where
  requests : ∃ owner, Requests s owner
  jobs : Jobs s
  held : Held s
  worker : ∀ w, WorkerOk inetPton s w (s.pc w)
  cache : CacheOk inetPton s.cache s.answers
  sent : ∀ x ∈ s.sent, x.Faithful inetPton s.answers

variable {inetPton : InetPton}

theorem DnsInv.init : DnsInv inetPton UdpDns.init where
  requests := ⟨fun _ => .nobody, nofun, List.nodup_nil, nofun, nofun⟩
  jobs := ⟨nofun, nofun, nofun, fun _ _ _ h => absurd rfl h⟩
  held := ⟨fun _ _ h => absurd h List.not_mem_nil, nofun, fun _ _ h => absurd h List.not_mem_nil⟩
  worker := fun _ => trivial
  cache := nofun
  sent := nofun

/-! ### Steps of a worker -/

theorem FromFrame.faithful {p : UdpDnsPend} {answers : List (Host × List UInt8)} {u : ℕ}
    {ip : List UInt8} {dst : SockAddr} (h : FromFrame p) (hip : (p.host, ip) ∈ answers)
    (hdst : sockaddrFromIpPort inetPton ip p.port = some dst) :
    SentDatagram.Faithful inetPton answers ⟨u, p.payload, dst, p.origin⟩ := by
  intro _
  refine ⟨h.payload, p.host, ip, ?_, hip, h.port ▸ hdst⟩
  rw [h.host]
  exact h.frame.host_bytes

/-- A worker goes on without touching the jobs, the queue or the sessions. -/
theorem DnsInv.move {s : UdpDns} (h : DnsInv inetPton s) (w : Fin udpWorkerCount)
    {pc : UdpWorkerPc} {cache : DnsCache} {woken : Fin udpWorkerCount → Bool}
    {sent : List SentDatagram} (hok : WorkerOk inetPton s w pc)
    (hserves : ∀ u, pc.serves = some u → u < s.nSessions ∧ (s.session u).widx = w)
    (hopen : ∀ u c ji, pc ≠ .enqueue u c ji) (hcache : CacheOk inetPton cache s.answers)
    (hsent : ∀ x ∈ sent, x.Faithful inetPton s.answers) :
    DnsInv inetPton { s with
      pc := Function.update s.pc w pc
      cache := cache
      woken := woken
      sent := sent } where
  requests := by
    obtain ⟨owner, hreq⟩ := h.requests
    refine ⟨owner, hreq.queued, hreq.nodup, hreq.resolving, fun w' u c ji hpc => ?_⟩
    have hne : w' ≠ w := by
      rintro rfl
      exact hopen u c ji (by simpa using hpc)
    exact hreq.opened w' u c ji (by simpa [hne] using hpc)
  jobs := ⟨h.jobs.answered, h.jobs.toWrite, h.jobs.written, h.jobs.unique⟩
  held := by
    refine ⟨h.held.listed, fun w' u hu => ?_, h.held.pend⟩
    by_cases hw : w' = w
    · subst hw
      exact hserves u (by simpa using hu)
    · exact h.held.served w' u (by simpa [hw] using hu)
  worker := by
    intro w'
    by_cases hw : w' = w
    · subst hw
      simp only [Function.update_self]
      exact hok
    · simp only [Function.update_of_ne hw]
      exact h.worker w'
  cache := hcache
  sent := hsent

/-- The cache answers with an address that a resolver has returned for the name. -/
theorem DnsInv.hit_faithful {s : UdpDns} (h : DnsInv inetPton s) {u now : ℕ} {c : RouteCall}
    {dst : SockAddr} (hc : c.atyp = socks5AtypDomain → DomainFrame c)
    (hport : c.atyp = socks5AtypDomain → dst.port = c.port)
    (hhit : dnsCacheLookup s.cache c.host now = some dst) :
    SentDatagram.Faithful inetPton s.answers ⟨u, c.payload, dst, c⟩ := by
  intro hatyp
  obtain ⟨i, hused, hhost, hsa⟩ := dnsCacheLookup_eq_some hhit
  obtain ⟨ip, hip, hdst⟩ := h.cache i hused
  rw [hhost] at hip
  rw [hsa] at hdst
  exact ⟨rfl, c.host, ip, (hc hatyp).host_bytes, hip, hport hatyp ▸ hdst⟩

theorem DnsInv.route {s : UdpDns} (h : DnsInv inetPton s) {w : Fin udpWorkerCount} {u now : ℕ}
    {c : RouteCall} {t : UdpDns} (hpc : s.pc w = .route u c) (hcond : SamePort s (.worker w now))
    (hstep : s.workerStep inetPton w now = some t) : DnsInv inetPton t := by
  have hframe : c.atyp = socks5AtypDomain → DomainFrame c := by
    have hok := h.worker w
    rw [hpc] at hok
    exact hok
  have hserved : ∀ u', (UdpWorkerPc.route u c).serves = some u' →
      u' < s.nSessions ∧ (s.session u').widx = w := by
    intro u' hu'
    exact h.held.served w u' (by rw [hpc]; exact hu')
  have hidle : ∀ sent, (∀ x ∈ sent, x.Faithful inetPton s.answers) →
      DnsInv inetPton { s with pc := Function.update s.pc w .idle, sent := sent } :=
    fun sent hsent => h.move w trivial (by rintro _ ⟨⟩) (by rintro _ _ _ ⟨⟩) h.cache hsent
  have hsend : ∀ dst, ((s.session u).remoteOpen = true →
        SentDatagram.Faithful inetPton s.answers ⟨u, c.payload, dst, c⟩) →
      DnsInv inetPton ((s.udpSend5g u c c.payload dst).setPc w .idle) := by
    intro dst hdst
    rcases udpSend5g_cases s u c c.payload dst with heq | ⟨hopen, heq⟩
    · rw [heq]
      exact hidle s.sent h.sent
    · rw [heq]
      refine hidle _ fun x hx => ?_
      rcases List.mem_append.mp hx with hold | hnew
      · exact h.sent x hold
      · rw [List.mem_singleton.mp hnew]
        exact hdst hopen
  unfold workerStep at hstep
  rw [hpc] at hstep
  simp only at hstep
  split at hstep
  case isTrue hatyp =>
    cases hdst : buildSockaddr c.atyp c.addr c.port with
    | some dst =>
        rw [hdst] at hstep
        cases hstep
        exact hsend dst fun _ hdomain => absurd hdomain hatyp
    | none =>
        rw [hdst] at hstep
        cases hstep
        exact hidle s.sent h.sent
  case isFalse hatyp =>
    have hdomain : c.atyp = socks5AtypDomain := not_not.mp hatyp
    split at hstep
    case isTrue =>
      cases hstep
      exact hidle s.sent h.sent
    case isFalse =>
      cases hhit : dnsCacheLookup s.cache c.host now with
      | some dst =>
          rw [hhit] at hstep
          cases hstep
          refine hsend dst fun hopen => h.hit_faithful hframe (fun _ => ?_) hhit
          simp only [SamePort, SamePortAt, hpc] at hcond
          exact hcond hdomain hopen dst hhit
      | none =>
          rw [hhit] at hstep
          cases hstep
          exact h.move w (hframe hdomain) hserved (by rintro _ _ _ ⟨⟩) h.cache h.sent

def Keeps (j j' : UdpDnsJob) : Prop :=
  j' = j ∨ j.state = .inflight ∧ j'.state ≠ .free ∧ j'.host = j.host ∧ j'.port = j.port

theorem WorkerOk.congr {s t : UdpDns} {w : Fin udpWorkerCount} {pc : UdpWorkerPc}
    (h : WorkerOk inetPton s w pc) (hjobs : ∀ i, Keeps (s.jobs (w, i)) (t.jobs (w, i)))
    (hnone : ∀ host, s.NoneHeld w host → t.NoneHeld w host) : WorkerOk inetPton t w pc := by
  have hdone : ∀ i, (s.jobs (w, i)).state = .doneOk ∨ (s.jobs (w, i)).state = .doneFail →
      t.jobs (w, i) = s.jobs (w, i) := by
    intro i hi
    refine (hjobs i).resolve_right fun ⟨hflight, _⟩ => ?_
    rw [hflight] at hi
    exact hi.elim (by rintro ⟨⟩) (by rintro ⟨⟩)
  cases pc with
  | hold u c ji =>
      cases ji with
      | none => exact h
      | some ji =>
          obtain ⟨hframe, hstate, hhost⟩ := h
          rcases hjobs ji with heq | ⟨-, hstate', hhost', -⟩
          · refine ⟨hframe, ?_, ?_⟩
            · rw [heq]
              exact hstate
            · rw [heq]
              exact hhost
          · exact ⟨hframe, hstate', hhost'.trans hhost⟩
  | put i dst now | flush i dst now =>
      simp only [WorkerOk, hdone i (Or.inl h.1)]
      exact h
  | drop i now =>
      simp only [WorkerOk, hdone i h]
      exact h
  | free i now =>
      simp only [WorkerOk, hdone i h.1]
      exact ⟨h.1, hnone _ h.2⟩
  | enqueue u c ji => exact ⟨h.1, hnone _ h.2⟩
  | idle | route u c | defer u c | drain i now => exact h

theorem HasJob.keeps {s t : UdpDns} {w : Fin udpWorkerCount} {p : UdpDnsPend} (h : s.HasJob w p)
    (hjobs : ∀ i, Keeps (s.jobs (w, i)) (t.jobs (w, i))) : t.HasJob w p := by
  obtain ⟨j, hstate, hhost, hport⟩ := h
  refine ⟨j, ?_⟩
  rcases hjobs j with heq | ⟨-, hstate', hhost', hport'⟩
  · rw [heq]
    exact ⟨hstate, hhost, hport⟩
  · exact ⟨hstate', hhost'.trans hhost, hport'.trans hport⟩

theorem Held.of_jobs {s t : UdpDns} (h : Held s) (hn : t.nSessions = s.nSessions)
    (hsession : t.session = s.session) (hlist : t.connList = s.connList) (hpend : t.pend = s.pend)
    (hserved : ∀ w u, (t.pc w).serves = some u → (s.pc w).serves = some u)
    (hjob : ∀ w, ∀ u ∈ s.connList w, ∀ k, (s.pend (u, k)).used = true →
      s.HasJob w (s.pend (u, k)) → t.HasJob w (s.pend (u, k))) : Held t where
  listed := by
    rw [hn, hsession, hlist]
    exact h.listed
  served := by
    rw [hn, hsession]
    exact fun w u hu => h.served w u (hserved w u hu)
  pend := by
    rw [hlist, hpend]
    intro w u hu k hused
    obtain ⟨hfrom, hhas⟩ := h.pend w u hu k hused
    exact ⟨hfrom, hjob w u hu k hused hhas⟩

/-- `udp_dns_defer` opens a job for a name that no job of the worker has. -/
theorem DnsInv.openJob {s : UdpDns} (h : DnsInv inetPton s) {w : Fin udpWorkerCount} {u : ℕ}
    {c : RouteCall} {ji : Fin udpDnsJobCount} (hframe : DomainFrame c)
    (hpc : s.pc w = .defer u c) (hfree : (s.jobs (w, ji)).state = .free)
    (hnone : ∀ i, (s.jobs (w, i)).state ≠ .free → (s.jobs (w, i)).host ≠ c.host) :
    DnsInv inetPton { s with
      jobs := Function.update s.jobs (w, ji) ⟨.inflight, c.host, c.port, []⟩
      pc := Function.update s.pc w (.enqueue u c ji) } := by
  have hne : ∀ key, (s.jobs key).state ≠ .free → key ≠ (w, ji) := by
    rintro key hkey rfl
    exact hkey hfree
  have hkeep : ∀ key, (s.jobs key).state ≠ .free →
      Function.update s.jobs (w, ji) ⟨.inflight, c.host, c.port, []⟩ key = s.jobs key :=
    fun key hkey => Function.update_of_ne (hne key hkey) _ _
  obtain ⟨owner, hreq⟩ := h.requests
  refine ⟨⟨Function.update owner (w, ji) .worker, ?_⟩, ?_, h.held.of_jobs rfl rfl rfl rfl ?_ ?_, ?_,
    h.cache, h.sent⟩
  · have hold : ∀ q o, owner q.key = o ∧ s.InFlight q →
        Function.update owner (w, ji) .worker q.key = o ∧
          (Function.update s.jobs (w, ji) ⟨.inflight, c.host, c.port, []⟩ q.key).state = .inflight ∧
          (Function.update s.jobs (w, ji) ⟨.inflight, c.host, c.port, []⟩ q.key).host = q.host := by
      rintro q o ⟨rfl, hin⟩
      rw [hkeep _ hin.ne_free, Function.update_of_ne (hne _ hin.ne_free)]
      exact ⟨rfl, hin⟩
    refine ⟨fun q hq => hold q _ (hreq.queued q hq), hreq.nodup,
      fun r q hq => hold q _ (hreq.resolving r q hq), fun w' u' c' ji' hpc' => ?_⟩
    by_cases hw : w' = w
    · subst hw
      simp only [Function.update_self] at hpc'
      cases hpc'
      exact ⟨Function.update_self .., by simp [InFlight, UdpDnsReq.key]⟩
    · simp only [Function.update_of_ne hw] at hpc'
      exact hold ⟨w', ji', c'.host⟩ _ (hreq.opened w' u' c' ji' hpc')
  · refine ⟨fun key hdone => ?_, h.jobs.toWrite, fun r q hq => ?_, fun w' i j hi hj hhost => ?_⟩
    · by_cases hkey : key = (w, ji)
      · subst hkey
        simp at hdone
      · simp only [Function.update_of_ne hkey] at hdone ⊢
        exact h.jobs.answered key hdone
    · have hin : s.InFlight q := (hreq.resolving r q (congrArg ResolverPc.request hq)).2
      simp only [hkeep _ hin.ne_free]
      exact h.jobs.written r q hq
    · by_cases hwi : (w', i) = (w, ji) <;> by_cases hwj : (w', j) = (w, ji)
      · exact (Prod.mk.inj (hwi.trans hwj.symm)).2
      · cases hwi
        simp only [Function.update_self, Function.update_of_ne hwj] at hj hhost
        exact absurd hhost.symm (hnone j hj)
      · cases hwj
        simp only [Function.update_self, Function.update_of_ne hwi] at hi hhost
        exact absurd hhost (hnone i hi)
      · simp only [Function.update_of_ne hwi, Function.update_of_ne hwj] at hi hj hhost
        exact h.jobs.unique w' i j hi hj hhost
  · intro w' u' hu'
    by_cases hw : w' = w
    · subst hw
      simp only [Function.update_self] at hu'
      rw [hpc]
      exact hu'
    · simpa only [Function.update_of_ne hw] using hu'
  · rintro w' u' - k - ⟨j, hstate, hhas⟩
    refine ⟨j, ?_⟩
    simp only [hkeep _ hstate]
    exact ⟨hstate, hhas⟩
  · intro w'
    by_cases hw : w' = w
    · subst hw
      simp only [Function.update_self]
      refine ⟨hframe, fun u' hu' k hused hhost => ?_⟩
      obtain ⟨-, j, hstate, hsame, -⟩ := h.held.pend w' u' hu' k hused
      exact hnone j hstate (hsame.trans hhost)
    · simp only [Function.update_of_ne hw]
      refine (h.worker w').congr (fun i => Or.inl ?_) fun _ hheld => hheld
      exact Function.update_of_ne (fun heq => hw (congrArg Prod.fst heq)) _ _

/-- `udp_dns_defer` finds a job for the name, or opens one. -/
theorem DnsInv.defer {s : UdpDns} (h : DnsInv inetPton s) {w : Fin udpWorkerCount} {u now : ℕ}
    {c : RouteCall} {t : UdpDns} (hpc : s.pc w = .defer u c)
    (hstep : s.workerStep inetPton w now = some t) : DnsInv inetPton t := by
  have hframe : DomainFrame c := by
    have hok := h.worker w
    rw [hpc] at hok
    exact hok
  have hserved : ∀ u', some u = some u' → u' < s.nSessions ∧ (s.session u').widx = w := by
    intro u' hu'
    exact h.held.served w u' (by rw [hpc]; exact hu')
  unfold workerStep at hstep
  rw [hpc] at hstep
  simp only at hstep
  cases hfind : udpDnsJobFind (fun i => s.jobs (w, i)) c.host with
  | some ji =>
      rw [hfind] at hstep
      cases hstep
      obtain ⟨hstate, hhost⟩ := udpDnsJobFind_eq_some hfind
      exact h.move w ⟨hframe, hstate, hhost⟩ hserved (by rintro _ _ _ ⟨⟩) h.cache h.sent
  | none =>
      rw [hfind] at hstep
      cases halloc : udpDnsJobAlloc fun i => s.jobs (w, i) with
      | none =>
          rw [halloc] at hstep
          cases hstep
          exact h.move w hframe hserved (by rintro _ _ _ ⟨⟩) h.cache h.sent
      | some ji =>
          rw [halloc] at hstep
          cases hstep
          exact h.openJob hframe hpc (udpDnsJobAlloc_eq_some halloc) fun i hi =>
            udpDnsJobFind_eq_none (hframe.host_bytes ▸ hframe.ne_nil) hfind i hi

/-- A worker frees a job that no request is under way for and no held frame waits for. -/
theorem DnsInv.closeJob {s : UdpDns} (h : DnsInv inetPton s) {w : Fin udpWorkerCount}
    {i : Fin udpDnsJobCount} {pc : UdpWorkerPc}
    (howner : ∀ owner, Requests s owner →
      owner (w, i) = .worker ∨ (s.jobs (w, i)).state ≠ .inflight)
    (hheld : s.NoneHeld w (s.jobs (w, i)).host) (hok : ∀ t, WorkerOk inetPton t w pc)
    (hopen : ∀ u c ji, pc ≠ .enqueue u c ji)
    (hserves : ∀ u, pc.serves = some u → (s.pc w).serves = some u) :
    DnsInv inetPton { s with
      jobs := Function.update s.jobs (w, i) { s.jobs (w, i) with state := .free }
      pc := Function.update s.pc w pc } := by
  have hkeep : ∀ key, (Function.update s.jobs (w, i) { s.jobs (w, i) with state := .free } key).state
      ≠ .free → key ≠ (w, i) := by
    rintro key hkey rfl
    simp at hkey
  obtain ⟨owner, hreq⟩ := h.requests
  have hne : ∀ q o, owner q.key = o ∧ s.InFlight q → o ≠ .worker → q.key ≠ (w, i) := by
    rintro q o ⟨hown, hin⟩ ho heq
    rcases howner owner hreq with hworker | hstate
    · rw [heq, hworker] at hown
      exact ho hown.symm
    · exact hstate (heq ▸ hin.1)
  refine ⟨⟨owner, ?_⟩, ?_, h.held.of_jobs rfl rfl rfl rfl ?_ ?_, ?_, h.cache, h.sent⟩
  · have hold : ∀ q o, owner q.key = o ∧ s.InFlight q → q.key ≠ (w, i) → owner q.key = o ∧
        (Function.update s.jobs (w, i) { s.jobs (w, i) with state := .free } q.key).state =
          .inflight ∧
        (Function.update s.jobs (w, i) { s.jobs (w, i) with state := .free } q.key).host =
          q.host := by
      rintro q o ⟨hown, hin⟩ hq
      rw [Function.update_of_ne hq]
      exact ⟨hown, hin⟩
    refine ⟨fun q hq => ?_, hreq.nodup, fun r q hq => ?_, fun w' u' c' ji' hpc' => ?_⟩
    · exact hold q _ (hreq.queued q hq) (hne q _ (hreq.queued q hq) (by rintro ⟨⟩))
    · exact hold q _ (hreq.resolving r q hq) (hne q _ (hreq.resolving r q hq) (by rintro ⟨⟩))
    · by_cases hw : w' = w
      · subst hw
        simp only [Function.update_self] at hpc'
        exact absurd hpc' (hopen u' c' ji')
      · simp only [Function.update_of_ne hw] at hpc'
        refine hold ⟨w', ji', c'.host⟩ _ (hreq.opened w' u' c' ji' hpc') fun heq => ?_
        exact hw (congrArg Prod.fst heq)
  · refine ⟨fun key hdone => ?_, h.jobs.toWrite, fun r q hq => ?_, fun w' j k hj hk hhost => ?_⟩
    · have hkey : key ≠ (w, i) := hkeep key (by rw [hdone]; rintro ⟨⟩)
      simp only [Function.update_of_ne hkey] at hdone ⊢
      exact h.jobs.answered key hdone
    · have hin := hreq.resolving r q (congrArg ResolverPc.request hq)
      simp only [Function.update_of_ne (hne q _ hin (by rintro ⟨⟩))]
      exact h.jobs.written r q hq
    · have hwj := hkeep _ hj
      have hwk := hkeep _ hk
      simp only [Function.update_of_ne hwj, Function.update_of_ne hwk] at hj hk hhost
      exact h.jobs.unique w' j k hj hk hhost
  · intro w' u' hu'
    by_cases hw : w' = w
    · subst hw
      simp only [Function.update_self] at hu'
      exact hserves u' hu'
    · simpa only [Function.update_of_ne hw] using hu'
  · rintro w' u' hu' k hused ⟨j, hstate, hhost, hport⟩
    have hwj : (w', j) ≠ (w, i) := by
      intro heq
      cases heq
      exact hheld u' hu' k hused hhost.symm
    refine ⟨j, ?_⟩
    simp only [Function.update_of_ne hwj]
    exact ⟨hstate, hhost, hport⟩
  · intro w'
    by_cases hw : w' = w
    · subst hw
      simp only [Function.update_self]
      exact hok _
    · simp only [Function.update_of_ne hw]
      refine (h.worker w').congr (fun j => Or.inl ?_) fun _ hheld => hheld
      exact Function.update_of_ne (fun heq => hw (congrArg Prod.fst heq)) _ _

/-- `udp_dns_enqueue`. -/
theorem DnsInv.enqueue {s : UdpDns} (h : DnsInv inetPton s) {w : Fin udpWorkerCount} {u now : ℕ}
    {c : RouteCall} {ji : Fin udpDnsJobCount} {t : UdpDns} (hpc : s.pc w = .enqueue u c ji)
    (hstep : s.workerStep inetPton w now = some t) : DnsInv inetPton t := by
  have hok := h.worker w
  rw [hpc] at hok
  obtain ⟨hframe, hheld⟩ := hok
  obtain ⟨owner, hreq⟩ := h.requests
  obtain ⟨hown, hin⟩ := hreq.opened w u c ji hpc
  have hserves : ∀ u', some u = some u' → (s.pc w).serves = some u' := by
    intro u' hu'
    rw [hpc]
    exact hu'
  unfold workerStep at hstep
  rw [hpc] at hstep
  simp only at hstep
  split at hstep
  case isTrue =>
    cases hstep
    have hne : ∀ (q : UdpDnsReq) o, owner q.key = o → o ≠ .worker → q.key ≠ (w, ji) := by
      rintro q o hq ho heq
      exact ho (hq.symm.trans (heq ▸ hown))
    have hold : ∀ q o, owner q.key = o ∧ s.InFlight q → o ≠ .worker →
        Function.update owner (w, ji) .queue q.key = o ∧ s.InFlight q := by
      rintro q o ⟨hq, hqin⟩ ho
      exact ⟨(Function.update_of_ne (hne q o hq ho) _ _).trans hq, hqin⟩
    refine ⟨⟨Function.update owner (w, ji) .queue, fun q hq => ?_, ?_, fun r q hq => ?_,
      fun w' u' c' ji' hpc' => ?_⟩,
      ⟨h.jobs.answered, h.jobs.toWrite, h.jobs.written, h.jobs.unique⟩,
      h.held.of_jobs rfl rfl rfl rfl ?_ (fun _ _ _ _ _ => id), ?_, h.cache, h.sent⟩
    · rcases List.mem_append.mp hq with hq | hq
      · exact hold q _ (hreq.queued q hq) (by rintro ⟨⟩)
      · rw [List.mem_singleton.mp hq]
        exact ⟨Function.update_self .., hin⟩
    · simp only [setPc, List.map_append, List.map_cons, List.map_nil]
      refine List.nodup_append.mpr ⟨hreq.nodup, List.nodup_singleton _, ?_⟩
      rintro _ hkey _ hnew rfl
      obtain ⟨q, hq, rfl⟩ := List.mem_map.mp hkey
      exact hne q _ (hreq.queued q hq).1 (by rintro ⟨⟩) (List.mem_singleton.mp hnew)
    · exact hold q _ (hreq.resolving r q hq) (by rintro ⟨⟩)
    · by_cases hw : w' = w
      · subst hw
        simp [setPc] at hpc'
      · simp only [setPc, Function.update_of_ne hw] at hpc'
        obtain ⟨hown', hin'⟩ := hreq.opened w' u' c' ji' hpc'
        exact ⟨(Function.update_of_ne (fun heq => hw (congrArg Prod.fst heq)) _ _).trans hown', hin'⟩
    · intro w' u' hu'
      by_cases hw : w' = w
      · subst hw
        simp only [setPc, Function.update_self] at hu'
        exact hserves u' hu'
      · simpa only [setPc, Function.update_of_ne hw] using hu'
    · intro w'
      by_cases hw : w' = w
      · subst hw
        simp only [setPc, Function.update_self]
        exact ⟨hframe, hin.ne_free, hin.2⟩
      · simp only [setPc, Function.update_of_ne hw]
        exact h.worker w'
  case isFalse =>
    cases hstep
    refine h.closeJob (fun owner' hreq' => Or.inl (hreq'.opened w u c ji hpc).1) ?_
      (fun _ => hframe) (by rintro _ _ _ ⟨⟩) hserves
    rw [show (s.jobs (w, ji)).host = c.host from hin.2]
    exact hheld

/-- `udp_dns_defer` holds the frame, or drops it. -/
theorem DnsInv.hold {s : UdpDns} (h : DnsInv inetPton s) {w : Fin udpWorkerCount} {u now : ℕ}
    {c : RouteCall} {ji : Option (Fin udpDnsJobCount)} {t : UdpDns} (hpc : s.pc w = .hold u c ji)
    (hcond : SamePort s (.worker w now)) (hstep : s.workerStep inetPton w now = some t) :
    DnsInv inetPton t := by
  have hidle : DnsInv inetPton (s.setPc w .idle) :=
    h.move w trivial (by rintro _ ⟨⟩) (by rintro _ _ _ ⟨⟩) h.cache h.sent
  have hok := h.worker w
  rw [hpc] at hok
  unfold workerStep at hstep
  rw [hpc] at hstep
  cases ji with
  | none =>
      cases hstep
      exact hidle
  | some ji =>
      cases hstep
      obtain ⟨hframe, hstate, hhost⟩ := hok
      obtain ⟨-, hwidx⟩ := h.held.served w u (by rw [hpc]; rfl)
      unfold holdFrame
      split
      case isFalse => exact hidle
      case isTrue hholdOk =>
      cases hslot : udpDnsPendFreeSlot fun k => s.pend (u, k) with
      | none => exact hidle
      | some k =>
          simp only [SamePort, SamePortAt, hpc, hslot] at hcond
          have hport := hcond hholdOk rfl
          have hother : ∀ w', ∀ u' ∈ s.connList w', ∀ k', w' ≠ w →
              Function.update s.pend (u, k) ⟨true, c.host, c.port, c.payload, c⟩ (u', k') =
                s.pend (u', k') := by
            intro w' u' hu' k' hw
            refine Function.update_of_ne (fun heq => hw ?_) _ _
            rw [← (h.held.listed w' u' hu').2.1, ← hwidx, (Prod.mk.inj heq).1]
          have hnone : ∀ w' host, w' ≠ w → s.NoneHeld w' host →
              NoneHeld
                { s with pend := Function.update s.pend (u, k) ⟨true, c.host, c.port, c.payload, c⟩ }
                w' host := by
            intro w' host hw hheld u' hu' k' hused
            simp only [hother w' u' hu' k' hw] at hused ⊢
            exact hheld u' hu' k' hused
          refine ⟨?_, ⟨h.jobs.answered, h.jobs.toWrite, h.jobs.written, h.jobs.unique⟩,
            ⟨h.held.listed, ?_, ?_⟩, ?_, h.cache, h.sent⟩
          · obtain ⟨owner, hreq⟩ := h.requests
            refine ⟨owner, hreq.queued, hreq.nodup, hreq.resolving, fun w' u' c' ji' hpc' => ?_⟩
            by_cases hw : w' = w
            · subst hw
              simp [setPc] at hpc'
            · exact hreq.opened w' u' c' ji' (by simpa only [setPc, Function.update_of_ne hw] using hpc')
          · intro w' u' hu'
            by_cases hw : w' = w
            · subst hw
              simp [setPc, UdpWorkerPc.serves] at hu'
            · exact h.held.served w' u' (by simpa only [setPc, Function.update_of_ne hw] using hu')
          · intro w' u' hu' k' hused
            by_cases hslot' : (u', k') = (u, k)
            · have hw : w' = w := by
                rw [← (h.held.listed w' u' hu').2.1, ← hwidx, (Prod.mk.inj hslot').1]
              subst hw
              simp only [setPc, hslot', Function.update_self]
              exact ⟨⟨hframe, rfl, rfl, rfl⟩, ji, hstate, hhost, hport⟩
            · simp only [setPc, Function.update_of_ne hslot'] at hused ⊢
              exact h.held.pend w' u' hu' k' hused
          · intro w'
            by_cases hw : w' = w
            · subst hw
              simp only [setPc, Function.update_self]
              trivial
            · simp only [setPc, Function.update_of_ne hw]
              exact (h.worker w').congr (fun _ => Or.inl rfl) fun host => hnone w' host hw

theorem sockaddrFromIpPort_port {ip : List UInt8} {port : UInt8 × UInt8} {sa : SockAddr}
    (h : sockaddrFromIpPort inetPton ip port = some sa) : sa.port = port := by
  unfold sockaddrFromIpPort at h
  split at h
  case isTrue => cases h
  case isFalse =>
    split at h
    case h_1 => cases h; rfl
    case h_2 =>
      obtain ⟨a, -, rfl⟩ := Option.map_eq_some_iff.mp h
      rfl

/-- `udp_dns_drain` looks at the next job. -/
theorem DnsInv.drain {s : UdpDns} (h : DnsInv inetPton s) {w : Fin udpWorkerCount}
    {i now now' : ℕ} {t : UdpDns} (hpc : s.pc w = .drain i now')
    (hstep : s.workerStep inetPton w now = some t) : DnsInv inetPton t := by
  have hmove : ∀ pc, WorkerOk inetPton s w pc → (∀ u, pc.serves ≠ some u) →
      (∀ u c ji, pc ≠ .enqueue u c ji) → DnsInv inetPton (s.setPc w pc) :=
    fun pc hok hserves hopen =>
      h.move w hok (fun u hu => absurd hu (hserves u)) hopen h.cache h.sent
  unfold workerStep at hstep
  rw [hpc] at hstep
  simp only at hstep
  split at hstep
  case isFalse =>
    cases hstep
    exact hmove _ trivial (by rintro _ ⟨⟩) (by rintro _ _ _ ⟨⟩)
  case isTrue hi =>
    cases hstate : (s.jobs (w, ⟨i, hi⟩)).state with
    | doneOk =>
        rw [hstate] at hstep
        cases hdst : sockaddrFromIpPort inetPton (s.jobs (w, ⟨i, hi⟩)).ip
            (s.jobs (w, ⟨i, hi⟩)).port with
        | some dst =>
            rw [hdst] at hstep
            cases hstep
            exact hmove _ ⟨hstate, hdst⟩ (by rintro _ ⟨⟩) (by rintro _ _ _ ⟨⟩)
        | none =>
            rw [hdst] at hstep
            cases hstep
            exact hmove _ (Or.inl hstate) (by rintro _ ⟨⟩) (by rintro _ _ _ ⟨⟩)
    | doneFail =>
        rw [hstate] at hstep
        cases hstep
        exact hmove _ (Or.inr hstate) (by rintro _ ⟨⟩) (by rintro _ _ _ ⟨⟩)
    | free | inflight =>
        rw [hstate] at hstep
        cases hstep
        exact hmove _ trivial (by rintro _ ⟨⟩) (by rintro _ _ _ ⟨⟩)

/-- `dns_cache_put` of an answered job. -/
theorem CacheOk.put {s : UdpDns} (h : DnsInv inetPton s)
    {key : Fin udpWorkerCount × Fin udpDnsJobCount} {dst : SockAddr} (now : ℕ)
    (hdone : (s.jobs key).state = .doneOk)
    (hdst : sockaddrFromIpPort inetPton (s.jobs key).ip (s.jobs key).port = some dst) :
    CacheOk inetPton (dnsCachePut s.cache (s.jobs key).host dst now) s.answers := by
  intro i hused
  rcases dnsCachePut_entry s.cache (s.jobs key).host dst now i with hold | ⟨hhost, hsa⟩
  · rw [hold] at hused ⊢
    exact h.cache i hused
  · rw [hhost, hsa, sockaddrFromIpPort_port hdst]
    exact ⟨(s.jobs key).ip, h.jobs.answered key hdone, hdst⟩

/-- The loops over the held frames, for a job that has been answered or has failed. -/
theorem DnsInv.takeHeld {s : UdpDns} (h : DnsInv inetPton s) {w : Fin udpWorkerCount}
    {i : Fin udpDnsJobCount} {now : ℕ} {dst : Option SockAddr}
    {take : UdpDns → ℕ → UdpDnsPend → UdpDns} (htake : Takes dst take)
    (hdone : (s.jobs (w, i)).state = .doneOk ∨ (s.jobs (w, i)).state = .doneFail)
    (hdst : ∀ d, dst = some d → (s.jobs (w, i)).state = .doneOk ∧
      sockaddrFromIpPort inetPton (s.jobs (w, i)).ip (s.jobs (w, i)).port = some d) :
    DnsInv inetPton (((s.pendSlots w).foldl (takeSlot (s.jobs (w, i)).host take) s).setPc w
      (.free i now)) := by
  obtain ⟨sent, pend, heq, hold, hclear, hsent⟩ := foldl_takeSlot htake (s.pendSlots w) s
  have hne : (s.jobs (w, i)).state ≠ .free := by
    intro hfree
    rw [hfree] at hdone
    exact hdone.elim (by rintro ⟨⟩) (by rintro ⟨⟩)
  have hnone : ∀ w' host, s.NoneHeld w' host → NoneHeld { s with pend := pend } w' host := by
    intro w' host hheld u hu k hused
    have hsame : pend (u, k) = s.pend (u, k) := hold (u, k) hused
    show (pend (u, k)).host ≠ host
    rw [hsame]
    exact hheld u hu k (hsame ▸ hused)
  rw [heq]
  refine ⟨?_, ⟨h.jobs.answered, h.jobs.toWrite, h.jobs.written, h.jobs.unique⟩,
    ⟨h.held.listed, ?_, ?_⟩, ?_, h.cache, ?_⟩
  · obtain ⟨owner, hreq⟩ := h.requests
    refine ⟨owner, hreq.queued, hreq.nodup, hreq.resolving, fun w' u' c' ji' hpc' => ?_⟩
    by_cases hw : w' = w
    · subst hw
      simp [setPc] at hpc'
    · exact hreq.opened w' u' c' ji' (by simpa only [setPc, Function.update_of_ne hw] using hpc')
  · intro w' u' hu'
    by_cases hw : w' = w
    · subst hw
      simp [setPc, UdpWorkerPc.serves] at hu'
    · exact h.held.served w' u' (by simpa only [setPc, Function.update_of_ne hw] using hu')
  · intro w' u hu k hused
    have hsame : pend (u, k) = s.pend (u, k) := hold (u, k) hused
    obtain ⟨hfrom, hjob⟩ := h.held.pend w' u hu k (hsame ▸ hused)
    show FromFrame (pend (u, k)) ∧ HasJob _ w' (pend (u, k))
    rw [hsame]
    exact ⟨hfrom, hjob⟩
  · intro w'
    by_cases hw : w' = w
    · subst hw
      simp only [setPc, Function.update_self]
      refine ⟨hdone, fun u hu k hused => ?_⟩
      exact hclear (u, k) (mem_pendSlots.mpr hu) (h.held.listed w' u hu).2.2 hused
    · simp only [setPc, Function.update_of_ne hw]
      exact (h.worker w').congr (fun _ => Or.inl rfl) (hnone w')
  · intro x hx
    rcases hsent x hx with hx₀ | ⟨d, ⟨u, k⟩, hd, hmem, hused, hhost, rfl⟩
    · exact h.sent x hx₀
    · obtain ⟨hfrom, j, hj, hjhost, hjport⟩ := h.held.pend w u (mem_pendSlots.mp hmem) k hused
      have hji : j = i := h.jobs.unique w j i hj hne (hjhost.trans hhost)
      subst hji
      obtain ⟨hok, hdst⟩ := hdst d hd
      have hip : ((s.pend (u, k)).host, (s.jobs (w, j)).ip) ∈ s.answers := by
        rw [hhost]
        exact h.jobs.answered (w, j) hok
      exact hfrom.faithful hip (hjport ▸ hdst)

theorem DnsInv.workerStep {s t : UdpDns} (h : DnsInv inetPton s) {w : Fin udpWorkerCount} {now : ℕ}
    (hcond : SamePort s (.worker w now)) (hstep : s.workerStep inetPton w now = some t) :
    DnsInv inetPton t := by
  have hok := h.worker w
  cases hpc : s.pc w with
  | idle =>
      rw [UdpDns.workerStep, hpc] at hstep
      cases hstep
  | route u c => exact h.route hpc hcond hstep
  | defer u c => exact h.defer hpc hstep
  | enqueue u c ji => exact h.enqueue hpc hstep
  | hold u c ji => exact h.hold hpc hcond hstep
  | drain i now' => exact h.drain hpc hstep
  | put i dst now' =>
      rw [hpc] at hok
      obtain ⟨hdone, hdst⟩ := hok
      rw [UdpDns.workerStep, hpc] at hstep
      cases hstep
      exact h.move w ⟨hdone, hdst⟩ nofun nofun (CacheOk.put h now' hdone hdst) h.sent
  | flush i dst now' =>
      rw [hpc] at hok
      obtain ⟨hdone, hdst⟩ := hok
      rw [UdpDns.workerStep, hpc] at hstep
      cases hstep
      refine h.takeHeld (takes_flush dst) (Or.inl hdone) ?_
      rintro d ⟨⟩
      exact ⟨hdone, hdst⟩
  | drop i now' =>
      rw [hpc] at hok
      rw [UdpDns.workerStep, hpc] at hstep
      cases hstep
      refine h.takeHeld takes_drop hok ?_
      intro d hd
      cases hd
  | free i now' =>
      rw [hpc] at hok
      obtain ⟨hdone, hheld⟩ := hok
      rw [UdpDns.workerStep, hpc] at hstep
      cases hstep
      refine h.closeJob (fun owner _ => Or.inr fun hflight => ?_) hheld (fun _ => trivial) nofun
        nofun
      rw [hflight] at hdone
      exact hdone.elim nofun nofun

/-! ### Steps of a resolver -/

theorem DnsInv.setJob {s : UdpDns} (h : DnsInv inetPton s) {r : Fin udpDnsResolverThreads}
    {q : UdpDnsReq} {job : UdpDnsJob} {pc : ResolverPc}
    (hreq : (s.resolver r).request = some q) (hjob : job.state ≠ .free)
    (hhost : job.host = (s.jobs q.key).host) (hport : job.port = (s.jobs q.key).port)
    (hanswer : job.state = .doneOk → (q.host, job.ip) ∈ s.answers)
    (hpc : (∃ q', pc = .wake q') ∨
      pc = .publish q true ∧ job.state = .inflight ∧ (q.host, job.ip) ∈ s.answers) :
    DnsInv inetPton { s with
      jobs := Function.update s.jobs q.key job
      resolver := Function.update s.resolver r pc } := by
  obtain ⟨owner, hrequests⟩ := h.requests
  obtain ⟨hown, hin⟩ := hrequests.resolving r q hreq
  have hkeep : ∀ key, Keeps (s.jobs key) (Function.update s.jobs q.key job key) := by
    intro key
    by_cases hkey : key = q.key
    · subst hkey
      rw [Function.update_self]
      exact Or.inr ⟨hin.1, hjob, hhost, hport⟩
    · exact Or.inl (Function.update_of_ne hkey _ _)
  have hold : ∀ (q' : UdpDnsReq) o, owner q'.key = o ∧ s.InFlight q' → o ≠ .resolver r →
      owner q'.key = o ∧ (Function.update s.jobs q.key job q'.key).state = .inflight ∧
        (Function.update s.jobs q.key job q'.key).host = q'.host := by
    rintro q' o ⟨hown', hin'⟩ ho
    have hne : q'.key ≠ q.key := by
      intro heq
      exact ho (hown'.symm.trans (heq ▸ hown))
    rw [Function.update_of_ne hne]
    exact ⟨hown', hin'⟩
  refine ⟨⟨owner, fun q' hq' => ?_, hrequests.nodup, fun r' q' hq' => ?_, fun w u c ji hw => ?_⟩,
    ⟨fun key hdone => ?_, fun r' q' ip hq' => ?_, fun r' q' hq' => ?_, fun w i j hi hj hsame => ?_⟩,
    h.held.of_jobs rfl rfl rfl rfl (fun _ _ => id) (fun w u _ k _ hhas => ?_), fun w => ?_, h.cache,
    h.sent⟩
  · exact hold q' _ (hrequests.queued q' hq') (by rintro ⟨⟩)
  · by_cases hr : r' = r
    · subst hr
      simp only [Function.update_self] at hq'
      rcases hpc with ⟨q'', rfl⟩ | ⟨rfl, hflight, -⟩
      · cases hq'
      · cases hq'
        refine ⟨hown, ?_⟩
        simp only [InFlight, Function.update_self]
        exact ⟨hflight, hhost.trans hin.2⟩
    · simp only [Function.update_of_ne hr] at hq'
      refine hold q' _ (hrequests.resolving r' q' hq') fun heq => hr ?_
      cases heq
      rfl
  · exact hold ⟨w, ji, c.host⟩ _ (hrequests.opened w u c ji hw) (by rintro ⟨⟩)
  · by_cases hkey : key = q.key
    · subst hkey
      simp only [Function.update_self] at hdone ⊢
      rw [hhost, hin.2]
      exact hanswer hdone
    · simp only [Function.update_of_ne hkey] at hdone ⊢
      exact h.jobs.answered key hdone
  · by_cases hr : r' = r
    · subst hr
      simp only [Function.update_self] at hq'
      rcases hpc with ⟨q'', rfl⟩ | ⟨rfl, -⟩ <;> cases hq'
    · simp only [Function.update_of_ne hr] at hq'
      exact h.jobs.toWrite r' q' ip hq'
  · by_cases hr : r' = r
    · subst hr
      simp only [Function.update_self] at hq'
      rcases hpc with ⟨q'', rfl⟩ | ⟨rfl, -, hip⟩
      · cases hq'
      · cases hq'
        simp only [Function.update_self]
        exact hip
    · simp only [Function.update_of_ne hr] at hq'
      have hne : q'.key ≠ q.key := fun heq =>
        hr (hrequests.resolver_eq hreq (congrArg ResolverPc.request hq') heq)
      simp only [Function.update_of_ne hne]
      exact h.jobs.written r' q' hq'
  · have hback : ∀ key, (Function.update s.jobs q.key job key).state ≠ .free →
        (s.jobs key).state ≠ .free ∧
          (Function.update s.jobs q.key job key).host = (s.jobs key).host := by
      intro key hkey
      rcases hkeep key with heq | ⟨hflight, -, hsame', -⟩
      · rw [heq] at hkey ⊢
        exact ⟨hkey, rfl⟩
      · rw [hflight]
        exact ⟨by rintro ⟨⟩, hsame'⟩
    obtain ⟨hi', hhi⟩ := hback _ hi
    obtain ⟨hj', hhj⟩ := hback _ hj
    exact h.jobs.unique w i j hi' hj' (hhi.symm.trans (hsame.trans hhj))
  · exact hhas.keeps fun i => hkeep (w, i)
  · exact (h.worker w).congr (fun i => hkeep (w, i)) fun _ hheld => hheld

/-- A resolver thread goes on without touching the jobs; answers are only added. -/
theorem DnsInv.moveResolver {s : UdpDns} (h : DnsInv inetPton s) (r : Fin udpDnsResolverThreads)
    {pc : ResolverPc} {answers : List (Host × List UInt8)} {woken : Fin udpWorkerCount → Bool}
    (hsub : ∀ x ∈ s.answers, x ∈ answers)
    (hreq : ∀ q, pc.request = some q → (s.resolver r).request = some q)
    (hwrite : ∀ q ip, pc = .write q ip → (q.host, ip) ∈ answers)
    (hpublish : ∀ q, pc ≠ .publish q true) :
    DnsInv inetPton { s with
      resolver := Function.update s.resolver r pc
      answers := answers
      woken := woken } where
  requests := by
    obtain ⟨owner, hrequests⟩ := h.requests
    refine ⟨owner, hrequests.queued, hrequests.nodup, fun r' q hq => ?_, hrequests.opened⟩
    by_cases hr : r' = r
    · subst hr
      simp only [Function.update_self] at hq
      exact hrequests.resolving r' q (hreq q hq)
    · simp only [Function.update_of_ne hr] at hq
      exact hrequests.resolving r' q hq
  jobs := by
    refine ⟨fun key hdone => hsub _ (h.jobs.answered key hdone), fun r' q ip hq => ?_,
      fun r' q hq => ?_, h.jobs.unique⟩
    · by_cases hr : r' = r
      · subst hr
        simp only [Function.update_self] at hq
        exact hwrite q ip hq
      · simp only [Function.update_of_ne hr] at hq
        exact hsub _ (h.jobs.toWrite r' q ip hq)
    · by_cases hr : r' = r
      · subst hr
        simp only [Function.update_self] at hq
        exact absurd hq (hpublish q)
      · simp only [Function.update_of_ne hr] at hq
        exact hsub _ (h.jobs.written r' q hq)
  held := ⟨h.held.listed, h.held.served, h.held.pend⟩
  worker := fun w => (h.worker w).congr (fun _ => Or.inl rfl) fun _ hheld => hheld
  cache := by
    intro i hused
    obtain ⟨ip, hip, hdst⟩ := h.cache i hused
    exact ⟨ip, hsub _ hip, hdst⟩
  sent := by
    intro x hx hatyp
    obtain ⟨hpayload, host, ip, hhost, hip, hdst⟩ := h.sent x hx hatyp
    exact ⟨hpayload, host, ip, hhost, hsub _ hip, hdst⟩

theorem DnsInv.pop {s : UdpDns} (h : DnsInv inetPton s) {r : Fin udpDnsResolverThreads}
    {q : UdpDnsReq} {rest : List UdpDnsReq} (hwait : s.resolver r = .wait)
    (hqueue : s.queue = q :: rest) :
    DnsInv inetPton { s with
      queue := rest
      resolver := Function.update s.resolver r (.resolve q) } := by
  obtain ⟨owner, hreq⟩ := h.requests
  have hq := hreq.queued q (by rw [hqueue]; exact List.mem_cons_self)
  have hnodup := hreq.nodup
  rw [hqueue, List.map_cons, List.nodup_cons] at hnodup
  have hold : ∀ (q' : UdpDnsReq) o, owner q'.key = o ∧ s.InFlight q' → q'.key ≠ q.key →
      Function.update owner q.key (.resolver r) q'.key = o ∧ s.InFlight q' :=
    fun q' o hq' hne => ⟨(Function.update_of_ne hne _ _).trans hq'.1, hq'.2⟩
  have hother : ∀ (q' : UdpDnsReq) o, owner q'.key = o ∧ s.InFlight q' → o ≠ .queue →
      q'.key ≠ q.key := by
    intro q' o hq' ho heq
    exact ho (hq'.1.symm.trans (heq ▸ hq.1))
  refine ⟨⟨Function.update owner q.key (.resolver r), fun q' hq' => ?_, hnodup.2, fun r' q' hq' => ?_,
    fun w u c ji hw => ?_⟩, ⟨h.jobs.answered, fun r' q' ip hq' => ?_, fun r' q' hq' => ?_,
    h.jobs.unique⟩, ⟨h.held.listed, h.held.served, h.held.pend⟩,
    fun w => (h.worker w).congr (fun _ => Or.inl rfl) fun _ hheld => hheld, h.cache, h.sent⟩
  · refine hold q' _ (hreq.queued q' (by rw [hqueue]; exact List.mem_cons_of_mem q hq')) fun heq => ?_
    exact hnodup.1 (heq ▸ List.mem_map_of_mem hq')
  · by_cases hr : r' = r
    · subst hr
      simp only [Function.update_self] at hq'
      cases hq'
      exact ⟨Function.update_self .., hq.2⟩
    · simp only [Function.update_of_ne hr] at hq'
      have hq'' := hreq.resolving r' q' hq'
      exact hold q' _ hq'' (hother q' _ hq'' nofun)
  · have hw' := hreq.opened w u c ji hw
    exact hold ⟨w, ji, c.host⟩ _ hw' (hother ⟨w, ji, c.host⟩ _ hw' nofun)
  · by_cases hr : r' = r
    · subst hr
      simp at hq'
    · simp only [Function.update_of_ne hr] at hq'
      exact h.jobs.toWrite r' q' ip hq'
  · by_cases hr : r' = r
    · subst hr
      simp at hq'
    · simp only [Function.update_of_ne hr] at hq'
      exact h.jobs.written r' q' hq'

theorem DnsInv.resolverStep {s t : UdpDns} (h : DnsInv inetPton s) {r : Fin udpDnsResolverThreads}
    {answer : Option (List UInt8)} (hstep : s.resolverStep r answer = some t) :
    DnsInv inetPton t := by
  unfold UdpDns.resolverStep at hstep
  cases hpc : s.resolver r with
  | wait =>
      rw [hpc] at hstep
      cases hqueue : s.queue with
      | nil =>
          rw [hqueue] at hstep
          cases hstep
      | cons q rest =>
          rw [hqueue] at hstep
          cases hstep
          exact h.pop hpc hqueue
  | resolve q =>
      have hreq : ∀ q', some q = some q' → (s.resolver r).request = some q' := by
        intro q' hq'
        rw [hpc]
        exact hq'
      rw [hpc] at hstep
      cases answer with
      | none =>
          cases hstep
          exact h.moveResolver r (fun _ hx => hx) hreq (by rintro _ _ ⟨⟩) (by rintro _ ⟨⟩)
      | some ip =>
          cases hstep
          have hsub : ∀ x ∈ s.answers, x ∈ s.answers ++ [(q.host, ip)] :=
            fun x hx => List.mem_append_left _ hx
          split
          case isTrue =>
            refine h.moveResolver r hsub hreq ?_ (by rintro _ ⟨⟩)
            rintro q' ip' ⟨⟩
            exact List.mem_append_right _ List.mem_cons_self
          case isFalse => exact h.moveResolver r hsub hreq (by rintro _ _ ⟨⟩) (by rintro _ ⟨⟩)
  | write q ip =>
      obtain ⟨owner, hrequests⟩ := h.requests
      have hreq : (s.resolver r).request = some q := by
        rw [hpc]
        rfl
      have hflight := (hrequests.resolving r q hreq).2
      rw [hpc] at hstep
      cases hstep
      refine h.setJob hreq hflight.ne_free rfl rfl (fun hdone => ?_)
        (Or.inr ⟨rfl, hflight.1, h.jobs.toWrite r q ip hpc⟩)
      exact absurd (hflight.1.symm.trans hdone) (by rintro ⟨⟩)
  | publish q ok =>
      have hreq : (s.resolver r).request = some q := by
        rw [hpc]
        rfl
      rw [hpc] at hstep
      cases ok with
      | true =>
          cases hstep
          exact h.setJob hreq (by rintro ⟨⟩) rfl rfl (fun _ => h.jobs.written r q hpc) (Or.inl ⟨q,
            rfl⟩)
      | false =>
          cases hstep
          exact h.setJob hreq (by rintro ⟨⟩) rfl rfl (by rintro ⟨⟩) (Or.inl ⟨q, rfl⟩)
  | wake q =>
      rw [hpc] at hstep
      cases hstep
      exact h.moveResolver r (fun _ hx => hx) (by rintro _ ⟨⟩) (by rintro _ _ ⟨⟩) (by rintro _ ⟨⟩)

/-! ### Sessions -/

theorem DnsInv.openSession {s : UdpDns} (h : DnsInv inetPton s) (w : Fin udpWorkerCount)
    (remoteOpen : Bool) :
    DnsInv inetPton { s with
      nSessions := s.nSessions + 1
      session := Function.update s.session s.nSessions ⟨true, false, remoteOpen, w⟩
      pend := fun slot => if slot.1 = s.nSessions then emptyPend else s.pend slot
      connList := Function.update s.connList w (s.nSessions :: s.connList w) } := by
  have hmem : ∀ w' u, u ∈ Function.update s.connList w (s.nSessions :: s.connList w) w' →
      u = s.nSessions ∧ w' = w ∨ u ∈ s.connList w' ∧ u ≠ s.nSessions := by
    intro w' u hu
    by_cases hw : w' = w
    · subst hw
      rw [Function.update_self] at hu
      rcases List.mem_cons.mp hu with rfl | hold
      · exact Or.inl ⟨rfl, rfl⟩
      · exact Or.inr ⟨hold, Nat.ne_of_lt (h.held.listed w' u hold).1⟩
    · rw [Function.update_of_ne hw] at hu
      exact Or.inr ⟨hu, Nat.ne_of_lt (h.held.listed w' u hu).1⟩
  have hnone : ∀ w' host, s.NoneHeld w' host → NoneHeld { s with
      nSessions := s.nSessions + 1
      session := Function.update s.session s.nSessions ⟨true, false, remoteOpen, w⟩
      pend := fun slot => if slot.1 = s.nSessions then emptyPend else s.pend slot
      connList := Function.update s.connList w (s.nSessions :: s.connList w) } w' host := by
    intro w' host hheld u hu k hused
    rcases hmem w' u hu with ⟨rfl, -⟩ | ⟨hold, hne⟩
    · simp [emptyPend] at hused
    · simp only [if_neg hne] at hused ⊢
      exact hheld u hold k hused
  refine ⟨?_, ⟨h.jobs.answered, h.jobs.toWrite, h.jobs.written, h.jobs.unique⟩,
    ⟨fun w' u hu => ?_, fun w' u hu => ?_, fun w' u hu k hused => ?_⟩, fun w' => ?_, h.cache,
    h.sent⟩
  · obtain ⟨owner, hreq⟩ := h.requests
    exact ⟨owner, hreq.queued, hreq.nodup, hreq.resolving, hreq.opened⟩
  · rcases hmem w' u hu with ⟨rfl, rfl⟩ | ⟨hold, hne⟩
    · simp
    · simp only [Function.update_of_ne hne]
      obtain ⟨hlt, hrest⟩ := h.held.listed w' u hold
      exact ⟨Nat.lt_succ_of_lt hlt, hrest⟩
  · obtain ⟨hlt, hwidx⟩ := h.held.served w' u hu
    simp only [Function.update_of_ne (Nat.ne_of_lt hlt)]
    exact ⟨Nat.lt_succ_of_lt hlt, hwidx⟩
  · rcases hmem w' u hu with ⟨rfl, -⟩ | ⟨hold, hne⟩
    · simp [emptyPend] at hused
    · simp only [if_neg hne] at hused ⊢
      exact h.held.pend w' u hold k hused
  · exact (h.worker w').congr (fun _ => Or.inl rfl) (hnone w')

theorem DnsInv.shrink {s : UdpDns} (h : DnsInv inetPton s) {session : ℕ → UdpSession}
    {connList : Fin udpWorkerCount → List ℕ} (hlist : ∀ w, ∀ u ∈ connList w, u ∈ s.connList w)
    (hsession : ∀ u, (session u).widx = (s.session u).widx ∧
      (session u).magic = (s.session u).magic) :
    DnsInv inetPton { s with session := session, connList := connList } := by
  have hnone : ∀ w host, s.NoneHeld w host →
      NoneHeld { s with session := session, connList := connList } w host :=
    fun w host hheld u hu => hheld u (hlist w u hu)
  refine ⟨?_, ⟨h.jobs.answered, h.jobs.toWrite, h.jobs.written, h.jobs.unique⟩,
    ⟨fun w u hu => ?_, fun w u hu => ?_, fun w u hu => h.held.pend w u (hlist w u hu)⟩,
    fun w => ?_, h.cache, h.sent⟩
  · obtain ⟨owner, hreq⟩ := h.requests
    exact ⟨owner, hreq.queued, hreq.nodup, hreq.resolving, hreq.opened⟩
  · show u < s.nSessions ∧ (session u).widx = w ∧ (session u).magic = true
    rw [(hsession u).1, (hsession u).2]
    exact h.held.listed w u (hlist w u hu)
  · show u < s.nSessions ∧ (session u).widx = w
    rw [(hsession u).1]
    exact h.held.served w u hu
  · exact (h.worker w).congr (fun _ => Or.inl rfl) (hnone w)

theorem DnsInv.restart {s : UdpDns} (h : DnsInv inetPton s) (hquiet : s.Quiet) :
    DnsInv inetPton { s with
      jobs := fun key => { s.jobs key with state := .free, host := emptyHost, ip := [] }
      woken := fun _ => false
      connList := fun _ => [] } := by
  obtain ⟨hpc, hresolver, hqueue⟩ := hquiet
  have hidle : ∀ w, s.pc w = .idle := by
    intro w
    have hw := hpc w
    cases hpc' : s.pc w with
    | idle => rfl
    | _ =>
        rw [hpc'] at hw
        cases hw
  have hwait : ∀ r, s.resolver r = .wait := by
    intro r
    have hr := hresolver r
    cases hpc' : s.resolver r with
    | wait => rfl
    | _ =>
        rw [hpc'] at hr
        cases hr
  have hnil : s.queue = [] := List.isEmpty_iff.mp hqueue
  refine ⟨⟨fun _ => .nobody, ?_, ?_, ?_, ?_⟩, ⟨nofun, ?_, ?_, fun _ _ _ hi => absurd rfl hi⟩,
    ⟨fun _ _ hu => absurd hu List.not_mem_nil, ?_, fun _ _ hu => absurd hu List.not_mem_nil⟩,
    ?_, h.cache, h.sent⟩
  · rw [hnil]
    exact nofun
  · rw [hnil]
    exact List.nodup_nil
  · intro r q hq
    simp [hwait r, ResolverPc.request] at hq
  · intro w u c ji hw
    simp [hidle w] at hw
  · intro r q ip hq
    simp [hwait r] at hq
  · intro r q hq
    simp [hwait r] at hq
  · intro w u hu
    simp [hidle w, UdpWorkerPc.serves] at hu
  · intro w
    simp only [hidle w]
    trivial

/-! ### The runs -/

theorem DnsInv.step {s t : UdpDns} {e : UdpDnsEvent} (h : DnsInv inetPton s) (hcond : SamePort s e)
    (hstep : UdpDns.step inetPton s e = some t) : DnsInv inetPton t := by
  cases e with
  | openSession w remoteOpen =>
      cases hstep
      exact h.openSession w remoteOpen
  | closeSession w u =>
      simp only [UdpDns.step] at hstep
      split at hstep
      case isTrue => cases hstep
      case isFalse =>
        cases hstep
        refine h.shrink (fun w' u' hu' => ?_) fun u' => ?_
        · by_cases hw : w' = w
          · subst hw
            rw [Function.update_self] at hu'
            exact List.mem_of_mem_erase hu'
          · rwa [Function.update_of_ne hw] at hu'
        · by_cases hu : u' = u
          · subst hu
            simp
          · simp [hu]
  | frame w u body =>
      simp only [UdpDns.step] at hstep
      split at hstep
      case isFalse => cases hstep
      case isTrue hlisted =>
        obtain ⟨c, hc, rfl⟩ := Option.map_eq_some_iff.mp hstep
        refine h.move w (fun hatyp => ?_) ?_ (by rintro _ _ _ ⟨⟩) h.cache h.sent
        · exact ⟨hatyp, RouteCall.host_bytes (hcond c hc hatyp), domain_ne_nil hc hatyp⟩
        · rintro u' ⟨⟩
          obtain ⟨hlt, hwidx, -⟩ := h.held.listed w u hlisted.2
          exact ⟨hlt, hwidx⟩
  | wake w now =>
      simp only [UdpDns.step] at hstep
      split at hstep
      case isFalse => cases hstep
      case isTrue =>
        cases hstep
        exact h.move w trivial (by rintro _ ⟨⟩) (by rintro _ _ _ ⟨⟩) h.cache h.sent
  | worker w now => exact h.workerStep hcond hstep
  | resolver r answer => exact h.resolverStep hstep
  | restart =>
      simp only [UdpDns.step] at hstep
      split at hstep
      case isFalse => cases hstep
      case isTrue hquiet =>
        cases hstep
        exact h.restart hquiet

end UdpDns

/-- When no domain frame has a NUL in its name, is sent from a cache entry made for another port or
is held for a job opened for another port, then every payload of a domain frame that is sent goes
to an address that a resolver has returned for its domain, and to the port of its frame. -/
theorem dns_destination_fidelity (inetPton : InetPton) {as : List UdpDnsEvent} {t : UdpDns}
    (hmeets : Meets (UdpDns.step inetPton) UdpDns.SamePort UdpDns.init as)
    (hrun : run (UdpDns.step inetPton) UdpDns.init as = some t) :
    ∀ x ∈ t.sent, x.Faithful inetPton t.answers :=
  (run_invariant_of_meets (fun _ _ _ h hcond hstep => h.step hcond hstep) UdpDns.DnsInv.init hmeets
    hrun).sent

/-- `inet_pton` for the one literal that the runs below resolve to. -/
def literalPton : InetPton where
  v6 := fun _ => none
  v4 := fun ip => if ip = [49, 46, 50, 46, 51, 46, 52] then some #v[1, 2, 3, 4] else none

/-- The name `a` is resolved for port 53 and the held frame is sent; a second frame for the same
port is a hit. -/
def resolveOnce : List UdpDnsEvent :=
  List.flatten [
    [.openSession 0 true, .frame 0 0 [0, 0, 0, 3, 1, 97, 0, 53, 7], .worker 0 1, .worker 0 1,
      .worker 0 1, .worker 0 1, .resolver 2 none, .resolver 2 (some [49, 46, 50, 46, 51, 46, 52]),
      .resolver 2 none, .resolver 2 none, .resolver 2 none, .wake 0 2, .worker 0 2, .worker 0 2,
      .worker 0 2],
    List.replicate 33 (.worker 0 2), [.frame 0 0 [0, 0, 0, 3, 1, 97, 0, 53, 8], .worker 0 3]]

theorem dns_destination_fidelity_once :
    ∃ t, run (UdpDns.step literalPton) UdpDns.init resolveOnce = some t ∧ t.sent.length = 2 ∧
      ∀ x ∈ t.sent, x.Faithful literalPton t.answers :=
  ⟨_, rfl, rfl, dns_destination_fidelity literalPton
    (by decide : Meets _ _ _ resolveOnce) rfl⟩

/-- Two sessions of a worker send to the name `a`, one to port 53 and, while the name is being
resolved, the other to port 80; after the answer a third frame goes to port 80. -/
def resolveTwoPorts : List UdpDnsEvent :=
  List.flatten [
    [.openSession 0 true, .openSession 0 true, .frame 0 0 [0, 0, 0, 3, 1, 97, 0, 53, 7],
      .worker 0 1, .worker 0 1, .worker 0 1, .worker 0 1, .frame 0 1 [0, 0, 0, 3, 1, 97, 0, 80, 8],
      .worker 0 1, .worker 0 1, .worker 0 1, .resolver 2 none,
      .resolver 2 (some [49, 46, 50, 46, 51, 46, 52]), .resolver 2 none, .resolver 2 none,
      .resolver 2 none, .wake 0 2, .worker 0 2, .worker 0 2, .worker 0 2],
    List.replicate 33 (.worker 0 2), [.frame 0 1 [0, 0, 0, 3, 1, 97, 0, 80, 9], .worker 0 3]]

/-- Both frames for port 80 go to port 53, the held one and the one that hits the cache. -/
theorem other_port_mixed_up :
    ∃ t, run (UdpDns.step literalPton) UdpDns.init resolveTwoPorts = some t ∧
      (t.sent.map fun x => (x.payload, x.origin.port, x.dst.port)) =
        [([8], (0, 80), (0, 53)), ([7], (0, 53), (0, 53)), ([9], (0, 80), (0, 53))] ∧
      ¬∀ x ∈ t.sent, x.Faithful literalPton t.answers := by
  refine ⟨_, rfl, rfl, fun hall => ?_⟩
  obtain ⟨-, host, ip, -, -, hdst⟩ := hall _ List.mem_cons_self rfl
  exact absurd (UdpDns.sockaddrFromIpPort_port hdst) (by decide)

end FiveGProxy
