import FiveGProxy.UdpDns.Model

/-!
# What one step of the asynchronous resolution can do

`step` is a nest of cases. `Transition` lists what can come out of it, once, with the guards that
the step has checked, and the invariants are proved from this list.
-/

namespace FiveGProxy

theorem UdpWorkerPc.eq_idle {pc : UdpWorkerPc} (h : pc.isIdle = true) : pc = .idle := by
  cases pc with
  | idle => rfl
  | _ => cases h

theorem ResolverPc.eq_wait {pc : ResolverPc} (h : pc.isWaiting = true) : pc = .wait := by
  cases pc with
  | wait => rfl
  | _ => cases h

namespace UdpDns

/-! ### The helpers -/

theorem udpSend5g_cases (s : UdpDns) (u : ℕ) (c : RouteCall) (payload : List UInt8)
    (dst : SockAddr) :
    s.udpSend5g u c payload dst = s ∨
      (s.session u).remoteOpen = true ∧
        s.udpSend5g u c payload dst = { s with sent := s.sent ++ [⟨u, payload, dst, c⟩] } := by
  unfold udpSend5g
  split
  case isTrue => exact Or.inl rfl
  case isFalse hopen =>
    refine Or.inr ⟨?_, rfl⟩
    simpa using fun hclosed => hopen (Or.inl hclosed)

theorem takes_flush (dst : SockAddr) :
    Takes (some dst) fun s u p =>
      if (s.session u).closed = true ∨ (s.session u).remoteOpen = false then s
      else s.udpSend5g u p.origin p.payload dst := by
  intro s u p
  dsimp only
  split
  case isTrue => exact ⟨s.sent, rfl, fun _ hx => Or.inl hx⟩
  case isFalse =>
    rcases udpSend5g_cases s u p.origin p.payload dst with heq | ⟨-, heq⟩
    · exact ⟨s.sent, heq, fun _ hx => Or.inl hx⟩
    · refine ⟨_, heq, fun x hx => ?_⟩
      exact (List.mem_append.mp hx).imp_right fun hnew => ⟨dst, rfl, List.mem_singleton.mp hnew⟩

theorem takes_drop : Takes none fun s _ _ => s :=
  fun s _ _ => ⟨s.sent, rfl, fun _ hx => Or.inl hx⟩

theorem foldl_takeSlot_other {host : Host} {dst : Option SockAddr}
    {take : UdpDns → ℕ → UdpDnsPend → UdpDns} (htake : Takes dst take)
    {slot : ℕ × Fin udpDnsPendSlots} (slots : List (ℕ × Fin udpDnsPendSlots)) (s : UdpDns)
    (h : slot ∉ slots ∨ (s.pend slot).host ≠ host) :
    (slots.foldl (takeSlot host take) s).pend slot = s.pend slot := by
  induction slots generalizing s with
  | nil => rfl
  | cons first rest ih =>
      have hfirst : (takeSlot host take s first).pend slot = s.pend slot := by
        unfold takeSlot
        split
        case isFalse => rfl
        case isTrue hmatch =>
          obtain ⟨sent, htaken, -⟩ := htake s first.1 (s.pend first)
          rw [htaken]
          refine Function.update_of_ne ?_ _ _
          rintro rfl
          rcases h with hmem | hhost
          · exact hmem List.mem_cons_self
          · exact hhost hmatch.2.2
      rw [List.foldl_cons, ih _ ?_, hfirst]
      rw [hfirst]
      exact h.imp_left fun hmem hrest => hmem (List.mem_cons_of_mem _ hrest)

/-- What `udp_dns_flush_pending` and `udp_dns_drop_pending` do for a name. -/
def Clears (s t : UdpDns) (w : Fin udpWorkerCount) (host : Host) (dst : Option SockAddr) : Prop :=
  ∃ sent pend, t = { s with sent := sent, pend := pend } ∧
    (∀ slot, (pend slot).used = true → pend slot = s.pend slot) ∧
    (∀ slot, slot.1 ∉ s.connList w ∨ (s.pend slot).host ≠ host → pend slot = s.pend slot) ∧
    (∀ slot, slot.1 ∈ s.connList w → (s.session slot.1).magic = true → (pend slot).used = true →
      (pend slot).host ≠ host) ∧
    ∀ x ∈ sent, x ∈ s.sent ∨ ∃ d slot, dst = some d ∧ slot.1 ∈ s.connList w ∧
      (s.pend slot).used = true ∧ (s.pend slot).host = host ∧
      x = ⟨slot.1, (s.pend slot).payload, d, (s.pend slot).origin⟩

theorem udpDnsFlushPending_clears (s : UdpDns) (w : Fin udpWorkerCount) (host : Host)
    (dst : SockAddr) : s.Clears (s.udpDnsFlushPending w host dst) w host (some dst) := by
  obtain ⟨sent, pend, heq, hold, hclear, hsent⟩ :=
    @foldl_takeSlot host _ _ (takes_flush dst) (s.pendSlots w) s
  simp only [mem_pendSlots] at hclear hsent
  refine ⟨sent, pend, heq, hold, fun slot hslot => ?_, hclear, hsent⟩
  rw [← mem_pendSlots] at hslot
  have hsame := foldl_takeSlot_other (takes_flush dst) (s.pendSlots w) s hslot
  rwa [heq] at hsame

theorem udpDnsDropPending_clears (s : UdpDns) (w : Fin udpWorkerCount) (host : Host) :
    s.Clears (s.udpDnsDropPending w host) w host none := by
  obtain ⟨sent, pend, heq, hold, hclear, hsent⟩ :=
    @foldl_takeSlot host _ _ takes_drop (s.pendSlots w) s
  simp only [mem_pendSlots] at hclear hsent
  refine ⟨sent, pend, heq, hold, fun slot hslot => ?_, hclear, hsent⟩
  rw [← mem_pendSlots] at hslot
  have hsame := foldl_takeSlot_other takes_drop (s.pendSlots w) s hslot
  rwa [heq] at hsame

def NoneHeld (s : UdpDns) (w : Fin udpWorkerCount) (host : Host) : Prop :=
  ∀ u ∈ s.connList w, ∀ k, (s.pend (u, k)).used = true → (s.pend (u, k)).host ≠ host

/-- `udp_dns_defer` changes at most one free slot of the session. -/
theorem holdFrame_cases (s : UdpDns) (u : ℕ) (c : RouteCall) :
    s.holdFrame u c = s ∨ ∃ k, (s.pend (u, k)).used = false ∧ s.holdFrame u c =
      { s with pend := Function.update s.pend (u, k) ⟨true, c.host, c.port, c.payload, c⟩ } := by
  unfold holdFrame
  split
  case isFalse => exact Or.inl rfl
  case isTrue =>
    cases hslot : udpDnsPendFreeSlot fun k => s.pend (u, k) with
    | none => exact Or.inl rfl
    | some k =>
        refine Or.inr ⟨k, ?_, rfl⟩
        simpa using List.find?_some hslot

/-- The states differ in what the sessions hold and have sent at most. -/
structure SameControl (s x : UdpDns) : Prop where
  jobs : x.jobs = s.jobs
  queue : x.queue = s.queue
  resolver : x.resolver = s.resolver
  woken : x.woken = s.woken
  pc : x.pc = s.pc
  connList : x.connList = s.connList
  cache : x.cache = s.cache

theorem SameControl.refl (s : UdpDns) : SameControl s s := ⟨rfl, rfl, rfl, rfl, rfl, rfl, rfl⟩

theorem udpSend5g_same (s : UdpDns) (u : ℕ) (c : RouteCall) (payload : List UInt8)
    (dst : SockAddr) : SameControl s (s.udpSend5g u c payload dst) := by
  rcases udpSend5g_cases s u c payload dst with heq | ⟨-, heq⟩ <;> rw [heq]
  · exact .refl s
  · exact ⟨rfl, rfl, rfl, rfl, rfl, rfl, rfl⟩

theorem holdFrame_same (s : UdpDns) (u : ℕ) (c : RouteCall) : SameControl s (s.holdFrame u c) := by
  rcases holdFrame_cases s u c with heq | ⟨k, -, heq⟩ <;> rw [heq]
  · exact .refl s
  · exact ⟨rfl, rfl, rfl, rfl, rfl, rfl, rfl⟩

theorem Clears.same {s t : UdpDns} {w : Fin udpWorkerCount} {host : Host} {dst : Option SockAddr}
    (h : s.Clears t w host dst) : SameControl s t := by
  obtain ⟨sent, pend, rfl, -⟩ := h
  exact ⟨rfl, rfl, rfl, rfl, rfl, rfl, rfl⟩

theorem Clears.pend_eq {s t : UdpDns} {w : Fin udpWorkerCount} {host : Host}
    {dst : Option SockAddr} (h : s.Clears t w host dst) (slot : ℕ × Fin udpDnsPendSlots)
    (hused : (t.pend slot).used = true) : t.pend slot = s.pend slot := by
  obtain ⟨sent, pend, rfl, hold, -⟩ := h
  exact hold slot hused

/-! ### The steps -/

variable (inetPton : InetPton)

/-- A session that is linked to the list of worker `w`. -/
def link (s : UdpDns) (w : Fin udpWorkerCount) (remoteOpen : Bool) : UdpDns :=
  { s with
    nSessions := s.nSessions + 1
    session := Function.update s.session s.nSessions ⟨true, false, remoteOpen, w⟩
    pend := fun slot => if slot.1 = s.nSessions then emptyPend else s.pend slot
    connList := Function.update s.connList w (s.nSessions :: s.connList w) }

def unlink (s : UdpDns) (w : Fin udpWorkerCount) (u : ℕ) : UdpDns :=
  { s with
    session := Function.update s.session u { s.session u with closed := true }
    connList := Function.update s.connList w ((s.connList w).erase u) }

def restarted (s : UdpDns) : UdpDns :=
  { s with
    jobs := fun key => { s.jobs key with state := .free, host := emptyHost, ip := [] }
    woken := fun _ => false
    connList := fun _ => [] }

inductive Transition (s : UdpDns) : UdpDnsEvent → UdpDns → Prop
  | openSession (w remoteOpen) : Transition s (.openSession w remoteOpen) (s.link w remoteOpen)
  | closeSession (w u) (hpc : (s.pc w).serves ≠ some u) :
      Transition s (.closeSession w u) (s.unlink w u)
  | frame (w u body c) (hpc : s.pc w = .idle) (hu : u ∈ s.connList w) (hc : routeOf body = some c) :
      Transition s (.frame w u body) (s.setPc w (.route u c))
  | wake (w now) (hpc : s.pc w = .idle) (hwoken : s.woken w = true) :
      Transition s (.wake w now)
        (setPc { s with woken := Function.update s.woken w false } w (.drain 0 now))
  | literal (w now u c dst) (hpc : s.pc w = .route u c) (hatyp : c.atyp ≠ socks5AtypDomain)
      (hdst : buildSockaddr c.atyp c.addr c.port = some dst) :
      Transition s (.worker w now) ((s.udpSend5g u c c.payload dst).setPc w .idle)
  | unrouted (w now u c) (hpc : s.pc w = .route u c) :
      Transition s (.worker w now) (s.setPc w .idle)
  | hit (w now u c dst) (hpc : s.pc w = .route u c) (hatyp : c.atyp = socks5AtypDomain)
      (hhit : dnsCacheLookup s.cache c.host now = some dst) :
      Transition s (.worker w now) ((s.udpSend5g u c c.payload dst).setPc w .idle)
  | miss (w now u c) (hpc : s.pc w = .route u c) (hatyp : c.atyp = socks5AtypDomain) :
      Transition s (.worker w now) (s.setPc w (.defer u c))
  | found (w now u c ji) (hpc : s.pc w = .defer u c)
      (hfind : udpDnsJobFind (fun i => s.jobs (w, i)) c.host = some ji) :
      Transition s (.worker w now) (s.setPc w (.hold u c (some ji)))
  | opened (w now u c ji) (hpc : s.pc w = .defer u c)
      (hfind : udpDnsJobFind (fun i => s.jobs (w, i)) c.host = none)
      (halloc : udpDnsJobAlloc (fun i => s.jobs (w, i)) = some ji) :
      Transition s (.worker w now)
        ((s.setJob (w, ji) ⟨.inflight, c.host, c.port, []⟩).setPc w (.enqueue u c ji))
  | jobsFull (w now u c) (hpc : s.pc w = .defer u c)
      (hfind : udpDnsJobFind (fun i => s.jobs (w, i)) c.host = none)
      (halloc : udpDnsJobAlloc (fun i => s.jobs (w, i)) = none) :
      Transition s (.worker w now) (s.setPc w (.hold u c none))
  | enqueued (w now u c ji) (hpc : s.pc w = .enqueue u c ji)
      (hroom : s.queue.length < udpDnsQueueMax) :
      Transition s (.worker w now)
        (setPc { s with queue := s.queue ++ [⟨w, ji, c.host⟩] } w (.hold u c (some ji)))
  | rolledBack (w now u c ji) (hpc : s.pc w = .enqueue u c ji)
      (hfull : ¬s.queue.length < udpDnsQueueMax) :
      Transition s (.worker w now)
        ((s.setJob (w, ji) { s.jobs (w, ji) with state := .free }).setPc w (.hold u c none))
  | held (w now u c ji) (hpc : s.pc w = .hold u c (some ji)) :
      Transition s (.worker w now) ((s.holdFrame u c).setPc w .idle)
  | dropped (w now u c) (hpc : s.pc w = .hold u c none) :
      Transition s (.worker w now) (s.setPc w .idle)
  | skip (w now i now') (hpc : s.pc w = .drain i.val now')
      (hstate : (s.jobs (w, i)).state = .free ∨ (s.jobs (w, i)).state = .inflight) :
      Transition s (.worker w now) (s.setPc w (.drain (i + 1) now'))
  | drained (w now i now') (hpc : s.pc w = .drain i now') (hi : udpDnsJobCount ≤ i) :
      Transition s (.worker w now) (s.setPc w .idle)
  | answer (w now i now' dst) (hpc : s.pc w = .drain i.val now')
      (hstate : (s.jobs (w, i)).state = .doneOk)
      (hdst : sockaddrFromIpPort inetPton (s.jobs (w, i)).ip (s.jobs (w, i)).port = some dst) :
      Transition s (.worker w now) (s.setPc w (.put i dst now'))
  | noAnswer (w now i now') (hpc : s.pc w = .drain i.val now')
      (hstate : (s.jobs (w, i)).state = .doneOk ∨ (s.jobs (w, i)).state = .doneFail) :
      Transition s (.worker w now) (s.setPc w (.drop i now'))
  | put (w now i dst now') (hpc : s.pc w = .put i dst now') :
      Transition s (.worker w now)
        (setPc { s with cache := dnsCachePut s.cache (s.jobs (w, i)).host dst now' } w
          (.flush i dst now'))
  | flush (w now i dst now') (hpc : s.pc w = .flush i dst now') :
      Transition s (.worker w now)
        ((s.udpDnsFlushPending w (s.jobs (w, i)).host dst).setPc w (.free i now'))
  | drop (w now i now') (hpc : s.pc w = .drop i now') :
      Transition s (.worker w now)
        ((s.udpDnsDropPending w (s.jobs (w, i)).host).setPc w (.free i now'))
  | free (w now i now') (hpc : s.pc w = .free i now') :
      Transition s (.worker w now)
        ((s.setJob (w, i) { s.jobs (w, i) with state := .free }).setPc w (.drain (i + 1) now'))
  | take (r answer q rest) (hpc : s.resolver r = .wait) (hqueue : s.queue = q :: rest) :
      Transition s (.resolver r answer) (setResolver { s with queue := rest } r (.resolve q))
  | resolved (r q ip) (hpc : s.resolver r = .resolve q)
      (hok : ip ≠ [] ∧ ip.length < udpDnsHostMax) :
      Transition s (.resolver r (some ip))
        (setResolver { s with answers := s.answers ++ [(q.host, ip)] } r (.write q ip))
  | refused (r q ip) (hpc : s.resolver r = .resolve q) :
      Transition s (.resolver r (some ip))
        (setResolver { s with answers := s.answers ++ [(q.host, ip)] } r (.publish q false))
  | unresolved (r q) (hpc : s.resolver r = .resolve q) :
      Transition s (.resolver r none) (s.setResolver r (.publish q false))
  | write (r answer q ip) (hpc : s.resolver r = .write q ip) :
      Transition s (.resolver r answer)
        ((s.setJob q.key { s.jobs q.key with ip := ip }).setResolver r (.publish q true))
  | publish (r answer q ok) (hpc : s.resolver r = .publish q ok) :
      Transition s (.resolver r answer)
        ((s.setJob q.key
          { s.jobs q.key with state := if ok then .doneOk else .doneFail }).setResolver r (.wake q))
  | wakeWorker (r answer q) (hpc : s.resolver r = .wake q) :
      Transition s (.resolver r answer)
        (setResolver { s with woken := Function.update s.woken q.worker true } r .wait)
  | restart (hquiet : s.Quiet) : Transition s .restart s.restarted

variable {inetPton} {s t : UdpDns}

theorem workerStep_transition {w : Fin udpWorkerCount} {now : ℕ}
    (h : s.workerStep inetPton w now = some t) : Transition inetPton s (.worker w now) t := by
  unfold workerStep at h
  cases hpc : s.pc w with
  | idle =>
      rw [hpc] at h
      cases h
  | route u c =>
      simp only [hpc] at h
      split at h
      case isTrue hatyp =>
        cases hdst : buildSockaddr c.atyp c.addr c.port with
        | some dst =>
            rw [hdst] at h
            cases h
            exact .literal w now u c dst hpc hatyp hdst
        | none =>
            rw [hdst] at h
            cases h
            exact .unrouted w now u c hpc
      case isFalse hatyp =>
        split at h
        case isTrue =>
          cases h
          exact .unrouted w now u c hpc
        case isFalse =>
          cases hhit : dnsCacheLookup s.cache c.host now with
          | some dst =>
              rw [hhit] at h
              cases h
              exact .hit w now u c dst hpc (not_not.mp hatyp) hhit
          | none =>
              rw [hhit] at h
              cases h
              exact .miss w now u c hpc (not_not.mp hatyp)
  | defer u c =>
      simp only [hpc] at h
      cases hfind : udpDnsJobFind (fun i => s.jobs (w, i)) c.host with
      | some ji =>
          rw [hfind] at h
          cases h
          exact .found w now u c ji hpc hfind
      | none =>
          rw [hfind] at h
          cases halloc : udpDnsJobAlloc fun i => s.jobs (w, i) with
          | some ji =>
              rw [halloc] at h
              cases h
              exact .opened w now u c ji hpc hfind halloc
          | none =>
              rw [halloc] at h
              cases h
              exact .jobsFull w now u c hpc hfind halloc
  | enqueue u c ji =>
      simp only [hpc] at h
      split at h
      case isTrue hroom =>
        cases h
        exact .enqueued w now u c ji hpc hroom
      case isFalse hfull =>
        cases h
        exact .rolledBack w now u c ji hpc hfull
  | hold u c ji =>
      cases ji with
      | some ji =>
          rw [hpc] at h
          cases h
          exact .held w now u c ji hpc
      | none =>
          rw [hpc] at h
          cases h
          exact .dropped w now u c hpc
  | drain i now' =>
      simp only [hpc] at h
      split at h
      case isFalse hi =>
        cases h
        exact .drained w now i now' hpc (Nat.le_of_not_lt hi)
      case isTrue hi =>
        cases hstate : (s.jobs (w, ⟨i, hi⟩)).state with
        | doneOk =>
            rw [hstate] at h
            cases hdst : sockaddrFromIpPort inetPton (s.jobs (w, ⟨i, hi⟩)).ip
                (s.jobs (w, ⟨i, hi⟩)).port with
            | some dst =>
                rw [hdst] at h
                cases h
                exact .answer w now ⟨i, hi⟩ now' dst hpc hstate hdst
            | none =>
                rw [hdst] at h
                cases h
                exact .noAnswer w now ⟨i, hi⟩ now' hpc (Or.inl hstate)
        | doneFail =>
            rw [hstate] at h
            cases h
            exact .noAnswer w now ⟨i, hi⟩ now' hpc (Or.inr hstate)
        | free =>
            rw [hstate] at h
            cases h
            exact .skip w now ⟨i, hi⟩ now' hpc (Or.inl hstate)
        | inflight =>
            rw [hstate] at h
            cases h
            exact .skip w now ⟨i, hi⟩ now' hpc (Or.inr hstate)
  | put i dst now' =>
      rw [hpc] at h
      cases h
      exact .put w now i dst now' hpc
  | flush i dst now' =>
      rw [hpc] at h
      cases h
      exact .flush w now i dst now' hpc
  | drop i now' =>
      rw [hpc] at h
      cases h
      exact .drop w now i now' hpc
  | free i now' =>
      rw [hpc] at h
      cases h
      exact .free w now i now' hpc

theorem resolverStep_transition {r : Fin udpDnsResolverThreads} {answer : Option (List UInt8)}
    (h : s.resolverStep r answer = some t) : Transition inetPton s (.resolver r answer) t := by
  unfold resolverStep at h
  cases hpc : s.resolver r with
  | wait =>
      rw [hpc] at h
      cases hqueue : s.queue with
      | nil =>
          rw [hqueue] at h
          cases h
      | cons q rest =>
          rw [hqueue] at h
          cases h
          exact .take r answer q rest hpc hqueue
  | resolve q =>
      rw [hpc] at h
      cases answer with
      | none =>
          cases h
          exact .unresolved r q hpc
      | some ip =>
          cases h
          by_cases hok : ip ≠ [] ∧ ip.length < udpDnsHostMax
          · rw [if_pos hok]
            exact .resolved r q ip hpc hok
          · rw [if_neg hok]
            exact .refused r q ip hpc
  | write q ip =>
      rw [hpc] at h
      cases h
      exact .write r answer q ip hpc
  | publish q ok =>
      rw [hpc] at h
      cases h
      exact .publish r answer q ok hpc
  | wake q =>
      rw [hpc] at h
      cases h
      exact .wakeWorker r answer q hpc

theorem transition_of_step {e : UdpDnsEvent} (h : step inetPton s e = some t) :
    Transition inetPton s e t := by
  cases e with
  | openSession w remoteOpen =>
      cases h
      exact .openSession w remoteOpen
  | closeSession w u =>
      simp only [step] at h
      split at h
      case isTrue => cases h
      case isFalse hserves =>
        cases h
        exact .closeSession w u hserves
  | frame w u body =>
      simp only [step] at h
      split at h
      case isTrue hidle =>
        obtain ⟨c, hc, rfl⟩ := Option.map_eq_some_iff.mp h
        exact .frame w u body c (UdpWorkerPc.eq_idle hidle.1) hidle.2 hc
      case isFalse => cases h
  | wake w now =>
      simp only [step] at h
      split at h
      case isTrue hidle =>
        cases h
        exact .wake w now (UdpWorkerPc.eq_idle hidle.1) hidle.2
      case isFalse => cases h
  | worker w now => exact workerStep_transition h
  | resolver r answer => exact resolverStep_transition h
  | restart =>
      simp only [step] at h
      split at h
      case isTrue hquiet =>
        cases h
        exact .restart hquiet
      case isFalse => cases h

end UdpDns

end FiveGProxy
