import FiveGProxy.Handshake.Target
import FiveGProxy.UdpDns.Requests

/-!
# Domain names are kept apart

The name of a frame with ATYP 0x03 goes through the cache, the jobs, the requests and the held
frames as a C string. `recordNames` keeps which frame opened each job and which one each entry of
the cache comes from. Without a NUL in a domain every one of these strings is the domain of its
frame, and frames for different domains meet nowhere; with a NUL the string is cut there.
-/

namespace FiveGProxy

open CString Steps

/-- The frame that opened each job, and the one behind each entry of the cache. -/
structure NameLog where
  opener : Fin udpWorkerCount × Fin udpDnsJobCount → RouteCall
  filler : Fin dnsResolveCacheSlots → RouteCall

def NameLog.empty : NameLog := ⟨fun _ => UdpDns.emptyPend.origin, fun _ => UdpDns.emptyPend.origin⟩

def recordNames (s : UdpDns) (e : UdpDnsEvent) (log : NameLog) : NameLog :=
  match e with
  | .worker w _ =>
      match s.pc w with
      | .defer _ c =>
          match udpDnsJobFind (fun i => s.jobs (w, i)) c.host, udpDnsJobAlloc fun i => s.jobs (w, i) with
          | none, some ji => { log with opener := Function.update log.opener (w, ji) c }
          | none, none | some _, _ => log
      | .put i _ now =>
          if (s.jobs (w, i)).host.bytes = [] then log
          else { log with
            filler := Function.update log.filler
              (dnsCacheSlot s.cache now (List.finRange dnsResolveCacheSlots) 0) (log.opener (w, i)) }
      | _ => log
  | .openSession .. | .closeSession .. | .frame .. | .wake .. | .resolver .. | .restart => log

def UdpWorkerPc.call : UdpWorkerPc → Option RouteCall
  | route _ c | defer _ c | enqueue _ c _ | hold _ c _ => some c
  | _ => none

/-- Every string that stands for a domain is that domain, and nothing is shared between frames for
different domains. -/
structure NamesKept (s : UdpDns) (log : NameLog) : Prop where
  /-- The name of a frame that is being routed. -/
  key : ∀ w c, (s.pc w).call = some c → c.atyp = socks5AtypDomain → c.host.bytes = c.domain
  cacheKey : ∀ i, (s.cache i).used = true → (s.cache i).host.bytes = (log.filler i).domain
  jobKey : ∀ key, (s.jobs key).state ≠ .free → (s.jobs key).host.bytes = (log.opener key).domain
  pendKey : ∀ slot, (s.pend slot).used = true →
    (s.pend slot).host.bytes = (s.pend slot).origin.domain
  /-- The name of a request, which goes to `request_java_resolve_host`. -/
  asked : ∀ q, q ∈ s.queue ∨ (∃ r, (s.resolver r).request = some q) →
    q.host.bytes = (log.opener q.key).domain
  /-- An entry of the cache that a frame may hit. -/
  hit : ∀ w u c, s.pc w = .route u c → c.atyp = socks5AtypDomain →
    ∀ i, (s.cache i).used = true → (s.cache i).host = c.host → (log.filler i).domain = c.domain
  /-- The job that `udp_dns_defer` finds. -/
  joined : ∀ w u c ji, s.pc w = .defer u c →
    udpDnsJobFind (fun i => s.jobs (w, i)) c.host = some ji → (log.opener (w, ji)).domain = c.domain
  /-- The held frames that are sent or dropped with a job. -/
  replayed : ∀ w i, (s.pc w).visits = some i → ∀ slot, (s.pend slot).used = true →
    (s.pend slot).host = (s.jobs (w, i)).host →
      (s.pend slot).origin.domain = (log.opener (w, i)).domain
  oneJob : ∀ w i j, (s.jobs (w, i)).state ≠ .free → (s.jobs (w, j)).state ≠ .free →
    (log.opener (w, i)).domain = (log.opener (w, j)).domain → i = j

def NoNul : UdpDnsEvent → Prop
  | .frame _ _ body => ∀ c ∈ routeOf body, c.atyp = socks5AtypDomain → 0 ∉ c.domain
  | _ => True

instance : DecidablePred NoNul
  | .frame _ _ body => inferInstanceAs (Decidable (∀ c ∈ routeOf body, _ → 0 ∉ c.domain))
  | .openSession .. | .closeSession .. | .wake .. | .worker .. | .resolver .. | .restart =>
      inferInstanceAs (Decidable True)

namespace UdpDns

/-! ### The invariant -/

def UdpWorkerPc.Whole : UdpWorkerPc → Prop
  | .route _ c => c.atyp = socks5AtypDomain → DomainFrame c
  | .defer _ c | .enqueue _ c _ | .hold _ c _ => DomainFrame c
  | _ => True

/-- The string and the frame that it comes from. -/
structure NameOf (host : Host) (c : RouteCall) : Prop where
  host : host = c.host
  frame : DomainFrame c

theorem NameOf.bytes {host : Host} {c : RouteCall} (h : NameOf host c) : host.bytes = c.domain := by
  rw [h.host, h.frame.host_bytes]

theorem NameOf.domain_eq {host host' : Host} {c c' : RouteCall} (h : NameOf host c)
    (h' : NameOf host' c') (heq : host = host') : c.domain = c'.domain :=
  h.frame.domain_eq h'.frame (h.host ▸ h'.host ▸ heq)

structure Named (s : UdpDns) (log : NameLog) : Prop where
  worker : ∀ w, UdpWorkerPc.Whole (s.pc w)
  job : ∀ key, (s.jobs key).state ≠ .free → NameOf (s.jobs key).host (log.opener key)
  unique : ∀ w i j, (s.jobs (w, i)).state ≠ .free → (s.jobs (w, j)).state ≠ .free →
    (s.jobs (w, i)).host = (s.jobs (w, j)).host → i = j
  pend : ∀ slot, (s.pend slot).used = true → NameOf (s.pend slot).host (s.pend slot).origin
  cache : ∀ i, (s.cache i).used = true → NameOf (s.cache i).host (log.filler i)

variable {s t : UdpDns} {log : NameLog}

theorem Named.init : Named UdpDns.init .empty where
  worker := fun _ => trivial
  job := fun _ h => absurd rfl h
  unique := fun _ _ _ h => absurd rfl h
  pend := nofun
  cache := nofun

theorem Named.kept (h : Named s log) (hserved : Served s) : NamesKept s log := by
  have hwhole : ∀ {w pc}, s.pc w = pc → UdpWorkerPc.Whole pc := by
    rintro w _ rfl
    exact h.worker w
  refine ⟨fun w c hc hatyp => ?_, fun i hi => (h.cache i hi).bytes, fun key hkey => (h.job key hkey).bytes,
    fun slot hslot => (h.pend slot hslot).bytes, fun q hq => ?_, fun w u c hpc hatyp i hi heq => ?_,
    fun w u c ji hpc hfind => ?_, fun w i hi slot hslot heq => ?_, fun w i j hi hj heq => ?_⟩
  · cases hpc : s.pc w <;> rw [hpc] at hc <;> cases hc
    · exact (hwhole hpc hatyp).host_bytes
    · exact (hwhole hpc).host_bytes
    · exact (hwhole hpc).host_bytes
    · exact (hwhole hpc).host_bytes
  · obtain ⟨owner, hreq⟩ := hserved.requests
    have hin : s.InFlight q := hq.elim (fun hq => (hreq.queued q hq).2)
      fun ⟨r, hr⟩ => (hreq.resolving r q hr).2
    rw [← hin.2]
    exact (h.job q.key hin.ne_free).bytes
  · exact (h.cache i hi).domain_eq ⟨rfl, hwhole hpc hatyp⟩ heq
  · obtain ⟨hstate, hhost⟩ := udpDnsJobFind_eq_some hfind
    exact (h.job _ hstate).domain_eq ⟨rfl, hwhole hpc⟩ hhost
  · exact (h.pend slot hslot).domain_eq (h.job _ (hserved.visited_ne_free hi)) heq
  · refine h.unique w i j hi hj (Host.eq_of_bytes ?_)
    rw [(h.job _ hi).bytes, (h.job _ hj).bytes, heq]

/-! ### What each step does to the names -/

theorem Named.congr (h : Named s log) (hworker : ∀ w, UdpWorkerPc.Whole (t.pc w))
    (hjobs : ∀ key, (t.jobs key).state ≠ .free →
      (s.jobs key).state ≠ .free ∧ (t.jobs key).host = (s.jobs key).host)
    (hpend : ∀ slot, (t.pend slot).used = true → t.pend slot = s.pend slot)
    (hcache : t.cache = s.cache) : Named t log where
  worker := hworker
  job := by
    intro key hkey
    obtain ⟨hold, hhost⟩ := hjobs key hkey
    rw [hhost]
    exact h.job key hold
  unique := by
    intro w i j hi hj heq
    obtain ⟨hi', hhosti⟩ := hjobs _ hi
    obtain ⟨hj', hhostj⟩ := hjobs _ hj
    rw [hhosti, hhostj] at heq
    exact h.unique w i j hi' hj' heq
  pend := by
    intro slot hslot
    have heq := hpend slot hslot
    rw [heq] at hslot ⊢
    exact h.pend slot hslot
  cache := by
    rw [hcache]
    exact h.cache

theorem Named.whole (h : Named s log) (w : Fin udpWorkerCount) {pc : UdpWorkerPc}
    (hpc : UdpWorkerPc.Whole pc) (w' : Fin udpWorkerCount) :
    UdpWorkerPc.Whole (Function.update s.pc w pc w') := by
  by_cases hw : w' = w
  · subst hw
    rwa [Function.update_self]
  · rw [Function.update_of_ne hw]
    exact h.worker w'

theorem Named.move (h : Named s log) {x : UdpDns} (hx : SameControl s x)
    (hpend : ∀ slot, (x.pend slot).used = true → x.pend slot = s.pend slot)
    {w : Fin udpWorkerCount} {pc : UdpWorkerPc} (hpc : UdpWorkerPc.Whole pc) :
    Named (x.setPc w pc) log := by
  refine h.congr (fun w' => ?_) (fun key hkey => ?_) hpend hx.cache
  · rw [setPc, hx.pc]
    exact h.whole w hpc w'
  · simp only [setPc, hx.jobs] at hkey ⊢
    exact ⟨hkey, trivial⟩

theorem Named.setJob (h : Named s log) {key : Fin udpWorkerCount × Fin udpDnsJobCount}
    {j : UdpDnsJob} (hj : j.state ≠ .free → (s.jobs key).state ≠ .free ∧ j.host = (s.jobs key).host) :
    Named (s.setJob key j) log := by
  refine h.congr h.worker (fun key' hkey => ?_) (fun _ _ => rfl) rfl
  by_cases heq : key' = key
  · subst heq
    simp only [UdpDns.setJob, Function.update_self] at hkey ⊢
    exact hj hkey
  · simp only [UdpDns.setJob, Function.update_of_ne heq] at hkey ⊢
    exact ⟨hkey, trivial⟩

theorem Named.openJob (h : Named s log) {w : Fin udpWorkerCount} {u : ℕ} {c : RouteCall}
    {ji : Fin udpDnsJobCount} (hpc : s.pc w = .defer u c)
    (hfind : udpDnsJobFind (fun i => s.jobs (w, i)) c.host = none) :
    Named ((s.setJob (w, ji) ⟨.inflight, c.host, c.port, []⟩).setPc w (.enqueue u c ji))
      { log with opener := Function.update log.opener (w, ji) c } := by
  have hframe : DomainFrame c := by
    have hw := h.worker w
    rwa [hpc] at hw
  have hne : c.host.bytes ≠ [] := by
    rw [hframe.host_bytes]
    exact hframe.ne_nil
  have hfresh : ∀ i, (s.jobs (w, i)).state ≠ .free → (s.jobs (w, i)).host ≠ c.host :=
    udpDnsJobFind_eq_none hne hfind
  refine ⟨h.whole w hframe, fun key hkey => ?_, fun w' i j hi hj heq => ?_, h.pend, h.cache⟩
  · by_cases heq : key = (w, ji)
    · subst heq
      simp only [setPc, UdpDns.setJob, Function.update_self]
      exact ⟨rfl, hframe⟩
    · simp only [setPc, UdpDns.setJob, Function.update_of_ne heq] at hkey ⊢
      exact h.job key hkey
  · by_cases hki : (w', i) = (w, ji) <;> by_cases hkj : (w', j) = (w, ji)
    · exact congrArg Prod.snd (hki.trans hkj.symm)
    · cases hki
      simp only [setPc, UdpDns.setJob, Function.update_self, Function.update_of_ne hkj] at hj heq
      exact absurd heq.symm (hfresh j hj)
    · cases hkj
      simp only [setPc, UdpDns.setJob, Function.update_self, Function.update_of_ne hki] at hi heq
      exact absurd heq (hfresh i hi)
    · simp only [setPc, UdpDns.setJob, Function.update_of_ne hki, Function.update_of_ne hkj]
        at hi hj heq
      exact h.unique w' i j hi hj heq

theorem Named.holdFrame (h : Named s log) {c : RouteCall} (hframe : DomainFrame c) (u : ℕ) :
    Named (s.holdFrame u c) log := by
  rcases holdFrame_cases s u c with heq | ⟨k, -, heq⟩ <;> rw [heq]
  · exact h
  · refine ⟨h.worker, h.job, h.unique, fun slot hslot => ?_, h.cache⟩
    by_cases hk : slot = (u, k)
    · subst hk
      simp only [Function.update_self]
      exact ⟨rfl, hframe⟩
    · simp only [Function.update_of_ne hk] at hslot ⊢
      exact h.pend slot hslot

theorem Named.put (h : Named s log) {w : Fin udpWorkerCount} {i : Fin udpDnsJobCount}
    (hstate : (s.jobs (w, i)).state ≠ .free) (dst : SockAddr) (now : ℕ) :
    Named { s with cache := dnsCachePut s.cache (s.jobs (w, i)).host dst now }
      { log with
        filler := Function.update log.filler
          (dnsCacheSlot s.cache now (List.finRange dnsResolveCacheSlots) 0) (log.opener (w, i)) } := by
  have hname := h.job _ hstate
  have hne : (s.jobs (w, i)).host.bytes ≠ [] := by
    rw [hname.bytes]
    exact hname.frame.ne_nil
  refine ⟨h.worker, h.job, h.unique, h.pend, fun k hk => ?_⟩
  simp only [dnsCachePut, if_neg hne, Function.update_apply] at hk ⊢
  split at hk
  case isTrue heq =>
    rw [if_pos heq, if_pos heq]
    exact hname
  case isFalse heq =>
    rw [if_neg heq, if_neg heq]
    exact h.cache k hk

variable {inetPton : InetPton} {e : UdpDnsEvent}

/-- A worker that is neither at `udp_dns_defer` nor at `dns_cache_put` is not recorded. -/
theorem recordNames_worker {w : Fin udpWorkerCount} {now : ℕ} {pc : UdpWorkerPc} (hpc : s.pc w = pc)
    (hdefer : ∀ u c, pc ≠ .defer u c) (hput : ∀ i dst now', pc ≠ .put i dst now') :
    recordNames s (.worker w now) log = log := by
  simp only [recordNames, hpc]

theorem Named.step (h : Named s log) (hserved : Served s) (hnul : NoNul e)
    (ht : Transition inetPton s e t) : Named t (recordNames s e log) := by
  have hwhole : ∀ {w pc}, s.pc w = pc → UdpWorkerPc.Whole pc := by
    rintro w _ rfl
    exact h.worker w
  cases ht with
  | openSession w remoteOpen =>
      refine h.congr h.worker (fun _ hkey => ⟨hkey, rfl⟩) (fun slot hslot => ?_) rfl
      simp only [link] at hslot ⊢
      split at hslot
      case isTrue => cases hslot
      case isFalse heq => rw [if_neg heq]
  | closeSession w u => exact h.congr h.worker (fun _ hkey => ⟨hkey, rfl⟩) (fun _ _ => rfl) rfl
  | frame w u body c hpc hu hc =>
      refine h.move (.refl s) (fun _ _ => rfl) fun hatyp => ?_
      exact ⟨hatyp, RouteCall.host_bytes (hnul c hc hatyp), domain_ne_nil hc hatyp⟩
  | wake w now hpc =>
      exact h.congr (h.whole w trivial) (fun _ hkey => ⟨hkey, rfl⟩) (fun _ _ => rfl) rfl
  | unrouted w now u c hpc | dropped w now u c hpc | skip w now i now' hpc | drained w now i now' hpc
  | answer w now i now' dst hpc | noAnswer w now i now' hpc =>
      rw [recordNames_worker hpc (by rintro _ _ ⟨⟩) (by rintro _ _ _ ⟨⟩)]
      exact h.move (.refl s) (fun _ _ => rfl) trivial
  | literal w now u c dst hpc | hit w now u c dst hpc =>
      rw [recordNames_worker hpc (by rintro _ _ ⟨⟩) (by rintro _ _ _ ⟨⟩)]
      refine h.move (udpSend5g_same s u c c.payload dst) (fun slot _ => ?_) trivial
      rcases udpSend5g_cases s u c c.payload dst with heq | ⟨-, heq⟩ <;> rw [heq]
  | miss w now u c hpc hatyp =>
      rw [recordNames_worker hpc (by rintro _ _ ⟨⟩) (by rintro _ _ _ ⟨⟩)]
      exact h.move (.refl s) (fun _ _ => rfl) (hwhole hpc hatyp)
  | found w now u c ji hpc hfind =>
      have hframe : DomainFrame c := hwhole hpc
      simp only [recordNames, hpc, hfind]
      exact h.move (.refl s) (fun _ _ => rfl) hframe
  | jobsFull w now u c hpc hfind halloc =>
      have hframe : DomainFrame c := hwhole hpc
      simp only [recordNames, hpc, hfind, halloc]
      exact h.move (.refl s) (fun _ _ => rfl) hframe
  | opened w now u c ji hpc hfind halloc =>
      simp only [recordNames, hpc, hfind, halloc]
      exact h.openJob hpc hfind
  | enqueued w now u c ji hpc =>
      have hframe : DomainFrame c := hwhole hpc
      rw [recordNames_worker hpc (by rintro _ _ ⟨⟩) (by rintro _ _ _ ⟨⟩)]
      exact h.congr (h.whole w hframe) (fun _ hkey => ⟨hkey, rfl⟩) (fun _ _ => rfl) rfl
  | rolledBack w now u c ji hpc =>
      have hframe : DomainFrame c := hwhole hpc
      rw [recordNames_worker hpc (by rintro _ _ ⟨⟩) (by rintro _ _ _ ⟨⟩)]
      exact (h.setJob fun hfree => absurd rfl hfree).move (.refl _) (fun _ _ => rfl) hframe
  | held w now u c ji hpc =>
      rw [recordNames_worker hpc (by rintro _ _ ⟨⟩) (by rintro _ _ _ ⟨⟩)]
      exact (h.holdFrame (hwhole hpc) u).move (.refl _) (fun _ _ => rfl) trivial
  | put w now i dst now' hpc =>
      have hstate := hserved.visited_ne_free (w := w) (i := i) (by rw [hpc]; rfl)
      have hne : (s.jobs (w, i)).host.bytes ≠ [] := by
        rw [(h.job _ hstate).bytes]
        exact (h.job _ hstate).frame.ne_nil
      simp only [recordNames, hpc, if_neg hne]
      exact (h.put hstate dst now').move (.refl _) (fun _ _ => rfl) trivial
  | flush w now i dst now' hpc =>
      have hclears := s.udpDnsFlushPending_clears w (s.jobs (w, i)).host dst
      rw [recordNames_worker hpc (by rintro _ _ ⟨⟩) (by rintro _ _ _ ⟨⟩)]
      exact h.move hclears.same hclears.pend_eq trivial
  | drop w now i now' hpc =>
      have hclears := s.udpDnsDropPending_clears w (s.jobs (w, i)).host
      rw [recordNames_worker hpc (by rintro _ _ ⟨⟩) (by rintro _ _ _ ⟨⟩)]
      exact h.move hclears.same hclears.pend_eq trivial
  | free w now i now' hpc =>
      rw [recordNames_worker hpc (by rintro _ _ ⟨⟩) (by rintro _ _ _ ⟨⟩)]
      exact (h.setJob fun hfree => absurd rfl hfree).move (.refl _) (fun _ _ => rfl) trivial
  | take | resolved | refused | unresolved | wakeWorker =>
      exact h.congr h.worker (fun _ hkey => ⟨hkey, rfl⟩) (fun _ _ => rfl) rfl
  | write r answer q ip hpc =>
      have hset : Named (s.setJob q.key { s.jobs q.key with ip := ip }) log :=
        h.setJob fun hstate => ⟨hstate, rfl⟩
      exact hset.congr hset.worker (fun _ hkey => ⟨hkey, rfl⟩) (fun _ _ => rfl) rfl
  | publish r answer q ok hpc =>
      obtain ⟨owner, hreq⟩ := hserved.requests
      have hin := (hreq.resolving r q (by rw [hpc]; rfl)).2
      have hset : Named (s.setJob q.key
          { s.jobs q.key with state := if ok then .doneOk else .doneFail }) log :=
        h.setJob fun _ => ⟨hin.ne_free, rfl⟩
      exact hset.congr hset.worker (fun _ hkey => ⟨hkey, rfl⟩) (fun _ _ => rfl) rfl
  | restart hquiet =>
      exact h.congr h.worker (fun _ hkey => absurd rfl hkey) (fun _ _ => rfl) rfl

end UdpDns

/-! ### Every run -/

/-- In every run of the handshakes, a CONNECT request for a domain asks for exactly that domain if
and only if it has no NUL in it. In every run of the resolution, every string that stands for a
domain is the domain in all states, and no entry, job or replay is shared between domains, if and
only if no domain frame has a NUL in its domain. -/
theorem domain_names_kept (inetPton : InetPton) :
    (∀ evs st start, run (record negotiationStep recordRequest) (.init, fun _ => 0) evs =
        some (st, start) → ∀ h k host port, st.client h = some k → k.pc = .connect host port →
      k.requestAtyp (start h) = socks5AtypDomain →
        (host = .name (k.requestDomain (start h)) ↔ 0 ∉ k.requestDomain (start h))) ∧
    ∀ as s log, run (record (UdpDns.step inetPton) recordNames) (UdpDns.init, .empty) as =
        some (s, log) →
      ((∀ bs t log', bs <+: as → run (record (UdpDns.step inetPton) recordNames)
          (UdpDns.init, .empty) bs = some (t, log') → NamesKept t log') ↔ ∀ e ∈ as, NoNul e) := by
  refine ⟨fun evs st start hrun h k host port hk hpc hatyp => ?_, fun as s log hrun => ?_⟩
  · rw [connect_name hrun hk hpc hatyp, TargetHost.name.injEq]
    exact content_append_zero_iff
  constructor
  · intro hkept e he
    obtain ⟨bs, cs, rfl⟩ := List.append_of_mem he
    rw [run_append, Option.bind_eq_some_iff] at hrun
    obtain ⟨⟨t, log₀⟩, hbs, hrest⟩ := hrun
    obtain ⟨⟨t', log'⟩, hstep, -⟩ := run_cons_eq_some.mp hrest
    have hnext : NamesKept t' log' := by
      refine hkept (bs ++ [e]) t' log' ⟨cs, by rw [List.append_assoc]; rfl⟩ ?_
      exact run_append_of_eq hbs (by rw [run_cons, hstep]; rfl)
    obtain ⟨htrans, -⟩ := record_eq_some.mp hstep
    cases UdpDns.transition_of_step htrans with
    | frame w u body c hpc hu hc =>
        intro c' hc' hatyp
        obtain rfl : c' = c := Option.some.inj (hc'.symm.trans hc)
        rw [← hnext.key w c' (by simp [UdpDns.setPc, UdpWorkerPc.call]) hatyp]
        exact zero_notMem_content _
    | _ => trivial
  · intro hnul bs t log' hbs hrun'
    have hmeets : Meets (UdpDns.step inetPton) (fun _ e => NoNul e) UdpDns.init bs :=
      Meets.of_forall (fun e he => hnul e (hbs.subset he)) _
    have hinv : UdpDns.Served t ∧ UdpDns.Named t log' := by
      refine record_invariant_of_meets (P := fun s log => UdpDns.Served s ∧ UdpDns.Named s log)
        (fun s x e t h hcond hstep => ?_) ⟨UdpDns.Served.init, UdpDns.Named.init⟩ hmeets hrun'
      have ht := UdpDns.transition_of_step hstep
      exact ⟨h.1.step ht, h.2.step h.1 hcond ht⟩
    exact hinv.2.kept hinv.1

def connectTo (domain : List UInt8) : List NegotiationEvent :=
  .accept 0 ([5, 1, 0, 5, 1, 0, 3, UInt8.ofNat domain.length] ++ domain ++ [0, 80]) ::
    List.replicate 11 (.client 0 true)

/-- A session of the first worker sends to both domains, before the first is resolved; then a
resolver takes the request. -/
def sendToBoth (d₁ d₂ : List UInt8) : List UdpDnsEvent :=
  List.flatten [
    [.openSession 0 true, .frame 0 0 ([0, 0, 0, 3, UInt8.ofNat d₁.length] ++ d₁ ++ [0, 53, 7])],
    List.replicate 4 (.worker 0 1),
    [.frame 0 0 ([0, 0, 0, 3, UInt8.ofNat d₂.length] ++ d₂ ++ [0, 53, 8])],
    List.replicate 2 (.worker 0 1), [.resolver 0 none]]

/-- The names `ab` and `ac`. -/
theorem domain_names_kept_without_nul :
    (∃ st start k, run (record negotiationStep recordRequest) (.init, fun _ => 0)
        (connectTo [97, 98]) = some (st, start) ∧ st.client 0 = some k ∧
      TargetHost.name [97, 98] = .name (k.requestDomain (start 0))) ∧
    ∃ s log, run (record (UdpDns.step noPton) recordNames) (UdpDns.init, .empty)
        (sendToBoth [97, 98] [97, 99]) = some (s, log) ∧ NamesKept s log := by
  constructor
  · obtain ⟨st, start, k, hrun, hk, hpc, hatyp, hdomain⟩ : ∃ st start k,
        run (record negotiationStep recordRequest) (.init, fun _ => 0) (connectTo [97, 98]) =
          some (st, start) ∧ st.client 0 = some k ∧ k.pc = .connect (.name [97, 98]) 80 ∧
          k.requestAtyp (start 0) = socks5AtypDomain ∧ 0 ∉ k.requestDomain (start 0) :=
      ⟨_, _, _, rfl, rfl, rfl, rfl, by decide +kernel⟩
    exact ⟨st, start, k, hrun, hk,
      ((domain_names_kept noPton).1 _ st start hrun 0 k _ 80 hk hpc hatyp).mpr hdomain⟩
  · obtain ⟨s, log, hrun⟩ : ∃ s log, run (record (UdpDns.step noPton) recordNames)
        (UdpDns.init, .empty) (sendToBoth [97, 98] [97, 99]) = some (s, log) := ⟨_, _, rfl⟩
    exact ⟨s, log, hrun, ((domain_names_kept noPton).2 _ s log hrun).mpr (by decide +kernel) _ s log
      List.prefix_rfl hrun⟩

/-- The names `a\0b` and `a\0c`: CONNECT asks for `a`, and so does the resolver; the frame for the
second name waits for the job of the first. -/
theorem names_cut_at_nul :
    (∃ st start k, run (record negotiationStep recordRequest) (.init, fun _ => 0)
        (connectTo [97, 0, 98]) = some (st, start) ∧ st.client 0 = some k ∧
      k.pc = .connect (.name [97]) 80 ∧ k.requestAtyp (start 0) = socks5AtypDomain ∧
      k.requestDomain (start 0) = [97, 0, 98]) ∧
    ∃ s log, run (record (UdpDns.step noPton) recordNames) (UdpDns.init, .empty)
        (sendToBoth [97, 0, 98] [97, 0, 99]) = some (s, log) ∧
      (∃ q, (s.resolver 0).request = some q ∧ q.key = (0, 0) ∧ q.host.bytes = [97]) ∧
      (log.opener (0, 0)).domain = [97, 0, 98] ∧
      (∃ c, s.pc 0 = .hold 0 c (some 0) ∧ c.domain = [97, 0, 99]) ∧ ¬NamesKept s log := by
  constructor
  · exact ⟨_, _, _, rfl, rfl, rfl, rfl, by decide +kernel⟩
  · obtain ⟨s, log, hrun, ⟨q, hq, hkey, hbytes⟩, hopener, hheld⟩ : ∃ s log,
        run (record (UdpDns.step noPton) recordNames) (UdpDns.init, .empty)
          (sendToBoth [97, 0, 98] [97, 0, 99]) = some (s, log) ∧
        (∃ q, (s.resolver 0).request = some q ∧ q.key = (0, 0) ∧ q.host.bytes = [97]) ∧
        (log.opener (0, 0)).domain = [97, 0, 98] ∧
        ∃ c, s.pc 0 = .hold 0 c (some 0) ∧ c.domain = [97, 0, 99] :=
      ⟨_, _, rfl, ⟨_, rfl, rfl, by decide +kernel⟩, by decide +kernel, _, rfl, by decide +kernel⟩
    refine ⟨s, log, hrun, ⟨q, hq, hkey, hbytes⟩, hopener, hheld, fun hkept => ?_⟩
    have hasked := hkept.asked q (Or.inr ⟨0, hq⟩)
    rw [hbytes, hkey, hopener] at hasked
    exact absurd hasked (by decide)

end FiveGProxy
