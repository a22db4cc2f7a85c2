import FiveGProxy.UdpDns.Transition

/-!
# Who has the request of a job

The workers and the resolver threads share the jobs without a lock. What keeps them apart is that
every request is for a job in flight and that no job has two, so that a resolver writes into a job
that its worker leaves alone until the state is published.
-/

namespace FiveGProxy

def ResolverPc.request : ResolverPc → Option UdpDnsReq
  | resolve q | write q _ | publish q _ => some q
  | _ => none

namespace UdpDns

/-- Who has the request of a job. -/
inductive Owner
  | nobody
  | worker
  | queue
  | resolver (r : Fin udpDnsResolverThreads)

def InFlight (s : UdpDns) (q : UdpDnsReq) : Prop :=
  (s.jobs q.key).state = .inflight ∧ (s.jobs q.key).host = q.host

/-- Every request is for a job in flight, and no two are for the same job. -/
structure Requests (s : UdpDns) (owner : Fin udpWorkerCount × Fin udpDnsJobCount → Owner) :
    Prop where
  queued : ∀ q ∈ s.queue, owner q.key = .queue ∧ s.InFlight q
  nodup : (s.queue.map UdpDnsReq.key).Nodup
  resolving : ∀ r q, (s.resolver r).request = some q → owner q.key = .resolver r ∧ s.InFlight q
  opened : ∀ w u c ji, s.pc w = .enqueue u c ji →
    owner (w, ji) = .worker ∧ s.InFlight ⟨w, ji, c.host⟩

theorem InFlight.ne_free {s : UdpDns} {q : UdpDnsReq} (h : s.InFlight q) :
    (s.jobs q.key).state ≠ .free := by
  rw [h.1]
  exact nofun

def Done (s : UdpDns) (key : Fin udpWorkerCount × Fin udpDnsJobCount) : Prop :=
  (s.jobs key).state = .doneOk ∨ (s.jobs key).state = .doneFail

theorem Done.ne_inflight {s : UdpDns} {key : Fin udpWorkerCount × Fin udpDnsJobCount}
    (h : s.Done key) : (s.jobs key).state ≠ .inflight := by
  intro hflight
  rcases h with h | h
  · exact absurd (hflight.symm.trans h) nofun
  · exact absurd (hflight.symm.trans h) nofun

variable {s t : UdpDns} {owner : Fin udpWorkerCount × Fin udpDnsJobCount → Owner}

/-- The requests stay with their owners, and their jobs stay in flight. -/
theorem Requests.congr (h : Requests s owner) (hqueue : t.queue = s.queue)
    (hjobs : ∀ q, s.InFlight q → t.InFlight q)
    (hres : ∀ r q, (t.resolver r).request = some q → (s.resolver r).request = some q)
    (hpc : ∀ w u c ji, t.pc w = .enqueue u c ji → s.pc w = .enqueue u c ji) :
    Requests t owner where
  queued := by
    intro q hq
    rw [hqueue] at hq
    exact (h.queued q hq).imp_right (hjobs q)
  nodup := by
    rw [hqueue]
    exact h.nodup
  resolving := fun r q hq => (h.resolving r q (hres r q hq)).imp_right (hjobs q)
  opened := fun w u c ji hw => (h.opened w u c ji (hpc w u c ji hw)).imp_right (hjobs _)

theorem Requests.resolver_eq (h : Requests s owner) {r r' : Fin udpDnsResolverThreads}
    {q q' : UdpDnsReq} (hq : (s.resolver r).request = some q)
    (hq' : (s.resolver r').request = some q') (hkey : q'.key = q.key) : r' = r := by
  have hown := (h.resolving r' q' hq').1
  rw [hkey, (h.resolving r q hq).1] at hown
  cases hown
  rfl

theorem Requests.release (h : Requests s owner) {key : Fin udpWorkerCount × Fin udpDnsJobCount}
    (hjobs : ∀ key', key' ≠ key → t.jobs key' = s.jobs key') (hqueue : t.queue = s.queue)
    (hqueued : ∀ q ∈ s.queue, q.key ≠ key)
    (hres : ∀ r q, (t.resolver r).request = some q → (s.resolver r).request = some q ∧ q.key ≠ key)
    (hpc : ∀ w u c ji, t.pc w = .enqueue u c ji → s.pc w = .enqueue u c ji ∧ (w, ji) ≠ key) :
    Requests t owner where
  queued := by
    intro q hq
    rw [hqueue] at hq
    refine (h.queued q hq).imp_right fun hin => ?_
    rw [InFlight, hjobs _ (hqueued q hq)]
    exact hin
  nodup := by
    rw [hqueue]
    exact h.nodup
  resolving := by
    intro r q hq
    obtain ⟨hq', hne⟩ := hres r q hq
    refine (h.resolving r q hq').imp_right fun hin => ?_
    rw [InFlight, hjobs _ hne]
    exact hin
  opened := by
    intro w u c ji hw
    obtain ⟨hw', hne⟩ := hpc w u c ji hw
    refine (h.opened w u c ji hw').imp_right fun hin => ?_
    rw [InFlight, show t.jobs (UdpDnsReq.mk w ji c.host).key = s.jobs (w, ji) from hjobs _ hne]
    exact hin

/-- `udp_dns_job_alloc` takes a job that no request is under way for. -/
theorem Requests.openJob (h : Requests s owner) {w : Fin udpWorkerCount} {u : ℕ} {c : RouteCall}
    {ji : Fin udpDnsJobCount} (hfree : (s.jobs (w, ji)).state = .free) :
    Requests ((s.setJob (w, ji) ⟨.inflight, c.host, c.port, []⟩).setPc w (.enqueue u c ji))
      (Function.update owner (w, ji) .worker) := by
  have hold : ∀ q o, owner q.key = o ∧ s.InFlight q →
      Function.update owner (w, ji) .worker q.key = o ∧
        (s.setJob (w, ji) ⟨.inflight, c.host, c.port, []⟩).InFlight q := by
    rintro q o ⟨rfl, hin⟩
    have hne : q.key ≠ (w, ji) := by
      intro hkey
      exact hin.ne_free (hkey ▸ hfree)
    refine ⟨Function.update_of_ne hne _ _, ?_⟩
    simp only [InFlight, setJob, Function.update_of_ne hne]
    exact hin
  refine ⟨fun q hq => hold q _ (h.queued q hq), h.nodup, fun r q hq => hold q _ (h.resolving r q hq),
    fun w' u' c' ji' hw' => ?_⟩
  by_cases hw : w' = w
  · subst hw
    simp only [setPc, Function.update_self] at hw'
    cases hw'
    exact ⟨Function.update_self .., by simp [InFlight, UdpDnsReq.key, setPc, setJob]⟩
  · simp only [setPc, Function.update_of_ne hw] at hw'
    exact hold ⟨w', ji', c'.host⟩ _ (h.opened w' u' c' ji' hw')

/-- `udp_dns_enqueue` hands the request of the worker to the queue. -/
theorem Requests.push (h : Requests s owner) {w : Fin udpWorkerCount} {u : ℕ} {c : RouteCall}
    {ji : Fin udpDnsJobCount} {pc : UdpWorkerPc} (hpc : s.pc w = .enqueue u c ji)
    (hopen : ∀ u c ji, pc ≠ .enqueue u c ji) :
    Requests (setPc { s with queue := s.queue ++ [⟨w, ji, c.host⟩] } w pc)
      (Function.update owner (w, ji) .queue) := by
  obtain ⟨hown, hin⟩ := h.opened w u c ji hpc
  have hne : ∀ (q : UdpDnsReq) o, owner q.key = o → o ≠ .worker → q.key ≠ (w, ji) := by
    rintro q o hq ho heq
    exact ho (hq.symm.trans (heq ▸ hown))
  have hold : ∀ q o, owner q.key = o ∧ s.InFlight q → o ≠ .worker →
      Function.update owner (w, ji) .queue q.key = o ∧ s.InFlight q := by
    rintro q o ⟨hq, hqin⟩ ho
    exact ⟨(Function.update_of_ne (hne q o hq ho) _ _).trans hq, hqin⟩
  refine ⟨fun q hq => ?_, ?_, fun r q hq => hold q _ (h.resolving r q hq) nofun,
    fun w' u' c' ji' hw' => ?_⟩
  · rcases List.mem_append.mp hq with hq | hq
    · exact hold q _ (h.queued q hq) nofun
    · rw [List.mem_singleton.mp hq]
      exact ⟨Function.update_self .., hin⟩
  · simp only [setPc, List.map_append, List.map_cons, List.map_nil]
    refine List.nodup_append.mpr ⟨h.nodup, List.nodup_singleton _, ?_⟩
    rintro _ hkey _ hnew rfl
    obtain ⟨q, hq, rfl⟩ := List.mem_map.mp hkey
    exact hne q _ (h.queued q hq).1 nofun (List.mem_singleton.mp hnew)
  · by_cases hw : w' = w
    · subst hw
      simp only [setPc, Function.update_self] at hw'
      exact absurd hw' (hopen u' c' ji')
    · simp only [setPc, Function.update_of_ne hw] at hw'
      obtain ⟨hown', hin'⟩ := h.opened w' u' c' ji' hw'
      exact ⟨(Function.update_of_ne (fun heq => hw (congrArg Prod.fst heq)) _ _).trans hown', hin'⟩

theorem Requests.pop (h : Requests s owner) {r : Fin udpDnsResolverThreads} {q : UdpDnsReq}
    {rest : List UdpDnsReq} (hqueue : s.queue = q :: rest) :
    Requests (setResolver { s with queue := rest } r (.resolve q))
      (Function.update owner q.key (.resolver r)) := by
  have hq := h.queued q (by rw [hqueue]; exact List.mem_cons_self)
  have hnodup := h.nodup
  rw [hqueue, List.map_cons, List.nodup_cons] at hnodup
  have hold : ∀ (q' : UdpDnsReq) o, owner q'.key = o ∧ s.InFlight q' → q'.key ≠ q.key →
      Function.update owner q.key (.resolver r) q'.key = o ∧ s.InFlight q' :=
    fun q' o hq' hne => ⟨(Function.update_of_ne hne _ _).trans hq'.1, hq'.2⟩
  have hother : ∀ (q' : UdpDnsReq) o, owner q'.key = o ∧ s.InFlight q' → o ≠ .queue →
      q'.key ≠ q.key := by
    intro q' o hq' ho heq
    exact ho (hq'.1.symm.trans (heq ▸ hq.1))
  refine ⟨fun q' hq' => ?_, hnodup.2, fun r' q' hq' => ?_, fun w u c ji hw => ?_⟩
  · refine hold q' _ (h.queued q' (by rw [hqueue]; exact List.mem_cons_of_mem q hq')) fun heq => ?_
    exact hnodup.1 (heq ▸ List.mem_map_of_mem hq')
  · by_cases hr : r' = r
    · subst hr
      simp only [setResolver, Function.update_self] at hq'
      cases hq'
      exact ⟨Function.update_self .., hq.2⟩
    · simp only [setResolver, Function.update_of_ne hr] at hq'
      have hq'' := h.resolving r' q' hq'
      exact hold q' _ hq'' (hother q' _ hq'' nofun)
  · have hw' := h.opened w u c ji hw
    exact hold ⟨w, ji, c.host⟩ _ hw' (hother ⟨w, ji, c.host⟩ _ hw' nofun)

end UdpDns

/-- The job that `udp_dns_drain` has found answered or given up. -/
def UdpWorkerPc.visits : UdpWorkerPc → Option (Fin udpDnsJobCount)
  | put i _ _ | flush i _ _ | drop i _ | free i _ => some i
  | _ => none

namespace UdpDns

/-- The requests and the jobs that `udp_dns_drain` is at keep apart. -/
structure Served (s : UdpDns) : Prop where
  requests : ∃ owner, Requests s owner
  visited : ∀ w i, (s.pc w).visits = some i → s.Done (w, i)

theorem Served.visited_ne_free {s : UdpDns} (h : Served s) {w : Fin udpWorkerCount}
    {i : Fin udpDnsJobCount} (hi : (s.pc w).visits = some i) : (s.jobs (w, i)).state ≠ .free := by
  rcases h.visited w i hi with hstate | hstate
  · rw [hstate]
    exact nofun
  · rw [hstate]
    exact nofun

theorem Served.init : Served UdpDns.init where
  requests := ⟨fun _ => .nobody, nofun, List.nodup_nil, nofun, nofun⟩
  visited := nofun

variable {s t : UdpDns}

theorem Served.move (h : Served s) (w : Fin udpWorkerCount) {pc : UdpWorkerPc}
    (hjobs : t.jobs = s.jobs) (hqueue : t.queue = s.queue) (hres : t.resolver = s.resolver)
    (hpc : t.pc = Function.update s.pc w pc) (hopen : ∀ u c ji, pc ≠ .enqueue u c ji)
    (hvisits : ∀ i, pc.visits = some i → s.Done (w, i)) : Served t where
  requests := by
    obtain ⟨owner, hreq⟩ := h.requests
    refine ⟨owner, hreq.congr hqueue (fun q hin => ?_) (fun r q hq => ?_) fun w' u c ji hw' => ?_⟩
    · rw [InFlight, hjobs]
      exact hin
    · rwa [hres] at hq
    · rw [hpc] at hw'
      have hne : w' ≠ w := by
        rintro rfl
        exact hopen u c ji (by simpa using hw')
      simpa [hne] using hw'
  visited := by
    intro w' i hi
    rw [hpc] at hi
    rw [Done, hjobs]
    by_cases hw : w' = w
    · subst hw
      exact hvisits i (by simpa using hi)
    · exact h.visited w' i (by simpa [hw] using hi)

/-- A resolver goes on with its request, or is done with it, without touching the jobs. -/
theorem Served.moveResolver (h : Served s) (r : Fin udpDnsResolverThreads) {pc : ResolverPc}
    (hjobs : t.jobs = s.jobs) (hqueue : t.queue = s.queue) (hpc : t.pc = s.pc)
    (hres : t.resolver = Function.update s.resolver r pc)
    (hreq : ∀ q, pc.request = some q → (s.resolver r).request = some q) : Served t where
  requests := by
    obtain ⟨owner, hown⟩ := h.requests
    refine ⟨owner, hown.congr hqueue (fun q hin => ?_) (fun r' q hq => ?_) fun w u c ji hw => ?_⟩
    · rw [InFlight, hjobs]
      exact hin
    · rw [hres] at hq
      by_cases hr : r' = r
      · subst hr
        exact hreq q (by simpa using hq)
      · simpa [hr] using hq
    · rwa [hpc] at hw
  visited := by
    rw [hpc]
    simp only [Done, hjobs]
    exact h.visited

/-- The job of a request that a resolver works on is not one that `udp_dns_drain` is at. -/
theorem Served.ne_visited (h : Served s) {r : Fin udpDnsResolverThreads} {q : UdpDnsReq}
    (hq : (s.resolver r).request = some q) {w : Fin udpWorkerCount} {i : Fin udpDnsJobCount}
    (hi : (s.pc w).visits = some i) : (w, i) ≠ q.key := by
  obtain ⟨owner, hreq⟩ := h.requests
  intro hkey
  exact (h.visited w i hi).ne_inflight (hkey ▸ (hreq.resolving r q hq).2.1)

theorem Served.opened (h : Served s) {w : Fin udpWorkerCount} {u : ℕ} {c : RouteCall}
    {ji : Fin udpDnsJobCount} (hpc : s.pc w = .defer u c)
    (hfree : (s.jobs (w, ji)).state = .free) :
    Served ((s.setJob (w, ji) ⟨.inflight, c.host, c.port, []⟩).setPc w (.enqueue u c ji)) where
  requests := by
    obtain ⟨owner, hreq⟩ := h.requests
    exact ⟨_, hreq.openJob hfree⟩
  visited := by
    intro w' i hi
    by_cases hw : w' = w
    · subst hw
      simp [setPc, UdpWorkerPc.visits] at hi
    · simp only [setPc, Function.update_of_ne hw] at hi
      have hne : (w', i) ≠ (w, ji) := fun heq => hw (congrArg Prod.fst heq)
      simp only [Done, setPc, setJob, Function.update_of_ne hne]
      exact h.visited w' i hi

theorem Served.closed (h : Served s) {w : Fin udpWorkerCount} {i : Fin udpDnsJobCount}
    {pc : UdpWorkerPc} (hown : ∀ owner, Requests s owner →
      owner (w, i) = .worker ∨ (s.jobs (w, i)).state ≠ .inflight)
    (hopen : ∀ u c ji, pc ≠ .enqueue u c ji) (hvisits : pc.visits = none) :
    Served ((s.setJob (w, i) { s.jobs (w, i) with state := .free }).setPc w pc) where
  requests := by
    obtain ⟨owner, hreq⟩ := h.requests
    have hne : ∀ q o, owner q.key = o ∧ s.InFlight q → o ≠ .worker → q.key ≠ (w, i) := by
      rintro q o ⟨rfl, hin⟩ ho hkey
      rcases hown owner hreq with hworker | hstate
      · exact ho (hkey ▸ hworker)
      · exact hstate (hkey ▸ hin.1)
    refine ⟨owner, hreq.release (fun key' (hkey : key' ≠ (w, i)) => Function.update_of_ne hkey _ _) rfl
      (fun q hq => hne q _ (hreq.queued q hq) nofun)
      (fun r q hq => ⟨hq, hne q _ (hreq.resolving r q hq) nofun⟩) fun w' u c ji hw' => ?_⟩
    by_cases hw : w' = w
    · subst hw
      simp only [setPc, Function.update_self] at hw'
      exact absurd hw' (hopen u c ji)
    · simp only [setPc, Function.update_of_ne hw] at hw'
      exact ⟨hw', fun heq => hw (congrArg Prod.fst heq)⟩
  visited := by
    intro w' j hj
    by_cases hw : w' = w
    · subst hw
      simp [setPc, hvisits] at hj
    · simp only [setPc, Function.update_of_ne hw] at hj
      have hne : (w', j) ≠ (w, i) := fun heq => hw (congrArg Prod.fst heq)
      simp only [Done, setPc, setJob, Function.update_of_ne hne]
      exact h.visited w' j hj

theorem Served.publish (h : Served s) {r : Fin udpDnsResolverThreads} {q : UdpDnsReq} {ok : Bool}
    (hpc : s.resolver r = .publish q ok) :
    Served ((s.setJob q.key
      { s.jobs q.key with state := if ok then .doneOk else .doneFail }).setResolver r (.wake q)) where
  requests := by
    obtain ⟨owner, hreq⟩ := h.requests
    have hq : (s.resolver r).request = some q := by
      rw [hpc]
      rfl
    have hown := (hreq.resolving r q hq).1
    have hne : ∀ (q' : UdpDnsReq) o, owner q'.key = o → o ≠ .resolver r → q'.key ≠ q.key := by
      rintro q' o rfl ho hkey
      exact ho (hkey ▸ hown)
    refine ⟨owner, hreq.release (fun key' (hkey : key' ≠ q.key) => Function.update_of_ne hkey _ _) rfl
      (fun q' hq' => hne q' _ (hreq.queued q' hq').1 nofun) (fun r' q' hq' => ?_)
      fun w u c ji hw => ⟨hw, hne ⟨w, ji, c.host⟩ _ (hreq.opened w u c ji hw).1 nofun⟩⟩
    by_cases hr : r' = r
    · subst hr
      simp [setResolver, ResolverPc.request] at hq'
    · simp only [setResolver, Function.update_of_ne hr] at hq'
      refine ⟨hq', hne q' _ (hreq.resolving r' q' hq').1 fun heq => ?_⟩
      cases heq
      exact hr rfl
  visited := by
    intro w i hi
    have hne : (w, i) ≠ q.key := h.ne_visited (r := r) (by rw [hpc]; rfl) hi
    simp only [Done, setResolver, setJob, Function.update_of_ne hne]
    exact h.visited w i hi

theorem Served.write (h : Served s) {r : Fin udpDnsResolverThreads} {q : UdpDnsReq}
    {ip : List UInt8} (hpc : s.resolver r = .write q ip) :
    Served ((s.setJob q.key { s.jobs q.key with ip := ip }).setResolver r (.publish q true)) where
  requests := by
    obtain ⟨owner, hreq⟩ := h.requests
    refine ⟨owner, hreq.congr rfl (fun q' hin => ?_) (fun r' q' hq' => ?_) fun _ _ _ _ hw => hw⟩
    · by_cases hkey : q'.key = q.key
      · simp only [InFlight, setResolver, setJob, hkey, Function.update_self]
        rw [InFlight, hkey] at hin
        exact hin
      · simp only [InFlight, setResolver, setJob, Function.update_of_ne hkey]
        exact hin
    · by_cases hr : r' = r
      · subst hr
        rw [hpc]
        simp only [setResolver, Function.update_self] at hq'
        exact hq'
      · simp only [setResolver, Function.update_of_ne hr] at hq'
        exact hq'
  visited := by
    intro w i hi
    have hne : (w, i) ≠ q.key := h.ne_visited (r := r) (by rw [hpc]; rfl) hi
    simp only [Done, setResolver, setJob, Function.update_of_ne hne]
    exact h.visited w i hi

theorem Served.restarted (h : s.Quiet) : Served s.restarted := by
  obtain ⟨hidle, hwait, hqueue⟩ := h
  have hpc : ∀ w, s.pc w = .idle := fun w => UdpWorkerPc.eq_idle (hidle w)
  have hres : ∀ r, s.resolver r = .wait := fun r => ResolverPc.eq_wait (hwait r)
  have hnil : s.queue = [] := List.isEmpty_iff.mp hqueue
  refine ⟨⟨fun _ => .nobody, ?_, ?_, fun r q hq => ?_, fun w u c ji hw => ?_⟩, fun w i hi => ?_⟩
  · simp [UdpDns.restarted, hnil]
  · simp [UdpDns.restarted, hnil]
  · simp [UdpDns.restarted, hres r, ResolverPc.request] at hq
  · simp [UdpDns.restarted, hpc w] at hw
  · simp [UdpDns.restarted, hpc w, UdpWorkerPc.visits] at hi

theorem Served.step {inetPton : InetPton} {e : UdpDnsEvent} (h : Served s)
    (ht : Transition inetPton s e t) : Served t := by
  cases ht with
  | openSession w remoteOpen =>
      obtain ⟨owner, hreq⟩ := h.requests
      exact ⟨⟨owner, hreq.queued, hreq.nodup, hreq.resolving, hreq.opened⟩, h.visited⟩
  | closeSession w u hpc =>
      obtain ⟨owner, hreq⟩ := h.requests
      exact ⟨⟨owner, hreq.queued, hreq.nodup, hreq.resolving, hreq.opened⟩, h.visited⟩
  | frame w | wake w | unrouted w | miss w | found w | jobsFull w | dropped w | skip w | drained w =>
      exact h.move w rfl rfl rfl rfl (by rintro _ _ _ ⟨⟩) (by rintro _ ⟨⟩)
  | literal w now u c dst | hit w now u c dst =>
      rcases udpSend5g_cases s u c c.payload dst with heq | ⟨-, heq⟩ <;> rw [heq]
      · exact h.move w rfl rfl rfl rfl (by rintro _ _ _ ⟨⟩) (by rintro _ ⟨⟩)
      · exact h.move w rfl rfl rfl rfl (by rintro _ _ _ ⟨⟩) (by rintro _ ⟨⟩)
  | opened w now u c ji hpc hfind halloc => exact h.opened hpc (udpDnsJobAlloc_eq_some halloc)
  | enqueued w now u c ji hpc =>
      obtain ⟨owner, hreq⟩ := h.requests
      refine ⟨⟨_, hreq.push hpc (by rintro _ _ _ ⟨⟩)⟩, fun w' i hi => ?_⟩
      by_cases hw : w' = w
      · subst hw
        simp [setPc, UdpWorkerPc.visits] at hi
      · exact h.visited w' i (by simpa [setPc, hw] using hi)
  | rolledBack w now u c ji hpc =>
      exact h.closed (fun owner hreq => Or.inl (hreq.opened w u c ji hpc).1) (by rintro _ _ _ ⟨⟩)
        rfl
  | held w now u c =>
      rcases holdFrame_cases s u c with heq | ⟨k, -, heq⟩ <;> rw [heq]
      · exact h.move w rfl rfl rfl rfl (by rintro _ _ _ ⟨⟩) (by rintro _ ⟨⟩)
      · exact h.move w rfl rfl rfl rfl (by rintro _ _ _ ⟨⟩) (by rintro _ ⟨⟩)
  | answer w now i now' dst hpc hstate =>
      refine h.move w rfl rfl rfl rfl (by rintro _ _ _ ⟨⟩) ?_
      rintro _ ⟨⟩
      exact Or.inl hstate
  | noAnswer w now i now' hpc hstate =>
      refine h.move w rfl rfl rfl rfl (by rintro _ _ _ ⟨⟩) ?_
      rintro _ ⟨⟩
      exact hstate
  | put w now i dst now' hpc =>
      refine h.move w rfl rfl rfl rfl (by rintro _ _ _ ⟨⟩) fun j hj => h.visited w j ?_
      rw [hpc]
      exact hj
  | flush w now i dst now' hpc =>
      obtain ⟨sent, pend, heq, -⟩ := s.udpDnsFlushPending_clears w (s.jobs (w, i)).host dst
      rw [heq]
      refine h.move w rfl rfl rfl rfl (by rintro _ _ _ ⟨⟩) fun j hj => h.visited w j ?_
      rw [hpc]
      exact hj
  | drop w now i now' hpc =>
      obtain ⟨sent, pend, heq, -⟩ := s.udpDnsDropPending_clears w (s.jobs (w, i)).host
      rw [heq]
      refine h.move w rfl rfl rfl rfl (by rintro _ _ _ ⟨⟩) fun j hj => h.visited w j ?_
      rw [hpc]
      exact hj
  | free w now i now' hpc =>
      refine h.closed (fun owner _ => Or.inr (h.visited w i ?_).ne_inflight) (by rintro _ _ _ ⟨⟩)
        rfl
      rw [hpc]
      rfl
  | take r answer q rest hpc hqueue =>
      obtain ⟨owner, hreq⟩ := h.requests
      exact ⟨⟨_, hreq.pop hqueue⟩, h.visited⟩
  | resolved r q ip hpc | refused r q ip hpc | unresolved r q hpc =>
      refine h.moveResolver r rfl rfl rfl rfl fun q' hq' => ?_
      rw [hpc]
      exact hq'
  | write r answer q ip hpc => exact h.write hpc
  | publish r answer q ok hpc => exact h.publish hpc
  | wakeWorker r => exact h.moveResolver r rfl rfl rfl rfl (by rintro _ ⟨⟩)
  | restart hquiet => exact Served.restarted hquiet

end UdpDns

end FiveGProxy
