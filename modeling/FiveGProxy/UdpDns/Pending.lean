import FiveGProxy.UdpDns.Requests
import FiveGProxy.Library.Fair

/-!
# Held frames are released

A frame that a session holds waits for a job of its worker with the same name. The job is in
flight with a request under way, or it is done and the worker has been or will be woken, or the
worker is draining and has not come to it yet. So the frame is sent or dropped in the end.

A worker whose pipe could not be created has no `wake` events.
-/

namespace FiveGProxy

open Steps

/-- `udp_dns_drain` is still going to take the held frames of the job. -/
def UdpWorkerPc.willVisit : UdpWorkerPc → Fin udpDnsJobCount → Prop
  | drain i _, j => i ≤ j
  | put i _ _, j | flush i _ _, j | drop i _, j => i ≤ j
  | free i _, j => i < j
  | _, _ => False

def udpDnsPendCount (pend : Fin udpDnsPendSlots → UdpDnsPend) : ℕ :=
  ((List.finRange udpDnsPendSlots).filter fun k => (pend k).used).length

namespace UdpDns

def Requested (s : UdpDns) (key : Fin udpWorkerCount × Fin udpDnsJobCount) : Prop :=
  (∃ q ∈ s.queue, q.key = key) ∨ ∃ r q, (s.resolver r).request = some q ∧ q.key = key

/-- The resolver that has published the job has yet to write to the pipe of its worker. -/
def WakeToCome (s : UdpDns) (key : Fin udpWorkerCount × Fin udpDnsJobCount) : Prop :=
  ∃ r q, s.resolver r = .wake q ∧ q.key = key

def InHand (s : UdpDns) (w : Fin udpWorkerCount) (j : Fin udpDnsJobCount) : Prop :=
  (s.jobs (w, j)).state = .inflight ∧ s.Requested (w, j) ∨
    s.Done (w, j) ∧ (s.woken w = true ∨ s.WakeToCome (w, j) ∨ (s.pc w).willVisit j)

/-! ### Every job has somebody to bring it further -/

/-- No job is left alone in flight or done. -/
structure Attended (s : UdpDns) : Prop where
  inflight : ∀ w j, (s.jobs (w, j)).state = .inflight →
    s.Requested (w, j) ∨ ∃ u c, s.pc w = .enqueue u c j
  done : ∀ w j, s.Done (w, j) →
    s.woken w = true ∨ s.WakeToCome (w, j) ∨ (s.pc w).willVisit j ∨ ∃ now, s.pc w = .free j now

variable {inetPton : InetPton} {s t : UdpDns}

/-- After the loop over the held frames the job itself needs no visit. -/
theorem willVisit_free {i j : Fin udpDnsJobCount} {now : ℕ} (h : i ≤ j) :
    (UdpWorkerPc.free i now).willVisit j ∨ ∃ now', UdpWorkerPc.free i now = .free j now' := by
  rcases Nat.lt_or_eq_of_le h with hlt | heq
  · exact Or.inl hlt
  · exact Or.inr ⟨now, by rw [Fin.ext heq]⟩

theorem Attended.init : Attended UdpDns.init where
  inflight := fun _ _ h => absurd h nofun
  done := fun _ _ h => h.elim nofun nofun

/-- A worker goes on without touching the jobs and the requests, and leaves no done job behind. -/
theorem Attended.move (h : Attended s) {w : Fin udpWorkerCount} {old pc : UdpWorkerPc}
    (hold : s.pc w = old) (hjobs : t.jobs = s.jobs) (hqueue : t.queue = s.queue)
    (hres : t.resolver = s.resolver) (hwoken : t.woken = s.woken)
    (hpc : t.pc = Function.update s.pc w pc) (hopen : ∀ u c ji, old ≠ .enqueue u c ji)
    (hvisit : ∀ j, s.Done (w, j) → old.willVisit j ∨ (∃ now, old = .free j now) →
      pc.willVisit j ∨ ∃ now, pc = .free j now) : Attended t where
  inflight := by
    intro w' j hj
    rw [hjobs] at hj
    rw [Requested, hqueue, hres, hpc]
    refine (h.inflight w' j hj).imp_right ?_
    rintro ⟨u, c, hw'⟩
    have hne : w' ≠ w := by
      rintro rfl
      exact hopen u c j (hold.symm.trans hw')
    exact ⟨u, c, by rw [Function.update_of_ne hne]; exact hw'⟩
  done := by
    intro w' j hj
    rw [Done, hjobs] at hj
    rw [WakeToCome, hres, hwoken, hpc]
    refine (h.done w' j hj).imp_right fun hrest => hrest.imp_right fun hvisits => ?_
    by_cases hw : w' = w
    · subst hw
      rw [hold] at hvisits
      rw [Function.update_self]
      exact hvisit j hj hvisits
    · rw [Function.update_of_ne hw]
      exact hvisits

theorem Attended.moveResolver (h : Attended s) {r : Fin udpDnsResolverThreads} {q : UdpDnsReq}
    {pc : ResolverPc} (hreq : (s.resolver r).request = some q)
    (hstate : ∀ key, (t.jobs key).state = (s.jobs key).state) (hqueue : t.queue = s.queue)
    (hpc : t.pc = s.pc) (hwoken : t.woken = s.woken)
    (hres : t.resolver = Function.update s.resolver r pc) (hreq' : pc.request = some q) :
    Attended t where
  inflight := by
    intro w j hj
    rw [hstate] at hj
    rw [Requested, hqueue, hres, hpc]
    refine (h.inflight w j hj).imp_left fun hreq₀ => hreq₀.imp_right ?_
    rintro ⟨r', q', hq', hkey⟩
    by_cases hr : r' = r
    · subst hr
      exact ⟨r', q, by rw [Function.update_self]; exact hreq',
        Option.some.inj (hreq.symm.trans hq') ▸ hkey⟩
    · exact ⟨r', q', by rw [Function.update_of_ne hr]; exact hq', hkey⟩
  done := by
    intro w j hj
    rw [Done, hstate] at hj
    rw [WakeToCome, hres, hpc, hwoken]
    refine (h.done w j hj).imp_right fun hrest => hrest.imp_left ?_
    rintro ⟨r', q', hq', hkey⟩
    have hr : r' ≠ r := by
      rintro rfl
      rw [hq'] at hreq
      cases hreq
    exact ⟨r', q', by rw [Function.update_of_ne hr]; exact hq', hkey⟩

theorem Attended.wake (h : Attended s) (w : Fin udpWorkerCount) (now : ℕ) (hpc : s.pc w = .idle) :
    Attended (setPc { s with woken := Function.update s.woken w false } w (.drain 0 now)) where
  inflight := by
    intro w' j hj
    refine (h.inflight w' j hj).imp_right ?_
    rintro ⟨u, c, hw'⟩
    have hne : w' ≠ w := by
      rintro rfl
      rw [hpc] at hw'
      cases hw'
    exact ⟨u, c, by simpa [setPc, hne] using hw'⟩
  done := by
    intro w' j hj
    by_cases hw : w' = w
    · subst hw
      refine Or.inr (Or.inr (Or.inl ?_))
      simp [setPc, UdpWorkerPc.willVisit]
    · simp only [setPc, Function.update_of_ne hw]
      exact h.done w' j hj

theorem Attended.opened (h : Attended s) {w : Fin udpWorkerCount} {u : ℕ} {c : RouteCall}
    {ji : Fin udpDnsJobCount} (hpc : s.pc w = .defer u c) :
    Attended ((s.setJob (w, ji) ⟨.inflight, c.host, c.port, []⟩).setPc w (.enqueue u c ji)) where
  inflight := by
    intro w' j hj
    by_cases hkey : (w', j) = (w, ji)
    · cases hkey
      exact Or.inr ⟨u, c, Function.update_self ..⟩
    · simp only [setPc, setJob, Function.update_of_ne hkey] at hj
      refine (h.inflight w' j hj).imp_right ?_
      rintro ⟨u', c', hw'⟩
      have hne : w' ≠ w := by
        rintro rfl
        rw [hpc] at hw'
        cases hw'
      exact ⟨u', c', by simpa [setPc, setJob, hne] using hw'⟩
  done := by
    intro w' j hj
    by_cases hkey : (w', j) = (w, ji)
    · cases hkey
      simp [Done, setPc, setJob] at hj
    · simp only [Done, setPc, setJob, Function.update_of_ne hkey] at hj
      refine (h.done w' j hj).imp_right fun hrest => hrest.imp_right fun hvisits => ?_
      by_cases hw : w' = w
      · subst hw
        rw [hpc] at hvisits
        rcases hvisits with hvisit | ⟨now, hfree⟩
        · exact hvisit.elim
        · cases hfree
      · simp only [setPc, Function.update_of_ne hw]
        exact hvisits

theorem Attended.enqueued (h : Attended s) {w : Fin udpWorkerCount} {u : ℕ} {c : RouteCall}
    {ji : Fin udpDnsJobCount} (hpc : s.pc w = .enqueue u c ji) :
    Attended (setPc { s with queue := s.queue ++ [⟨w, ji, c.host⟩] } w (.hold u c (some ji))) where
  inflight := by
    intro w' j hj
    rcases h.inflight w' j hj with (⟨q, hq, hkey⟩ | hres) | ⟨u', c', hw'⟩
    · exact Or.inl (Or.inl ⟨q, List.mem_append_left _ hq, hkey⟩)
    · exact Or.inl (Or.inr hres)
    · by_cases hw : w' = w
      · subst hw
        rw [hpc] at hw'
        cases hw'
        exact Or.inl (Or.inl ⟨_, List.mem_append_right _ List.mem_cons_self, rfl⟩)
      · exact Or.inr ⟨u', c', by simpa [setPc, hw] using hw'⟩
  done := by
    intro w' j hj
    refine (h.done w' j hj).imp_right fun hrest => hrest.imp_right fun hvisits => ?_
    by_cases hw : w' = w
    · subst hw
      rw [hpc] at hvisits
      rcases hvisits with hvisit | ⟨now, hfree⟩
      · exact hvisit.elim
      · cases hfree
    · simp only [setPc, Function.update_of_ne hw]
      exact hvisits

theorem Attended.closed (h : Attended s) {w : Fin udpWorkerCount} {i : Fin udpDnsJobCount}
    {old pc : UdpWorkerPc} (hold : s.pc w = old) (hopen : ∀ u c ji, old = .enqueue u c ji → ji = i)
    (hvisit : ∀ j, j ≠ i → old.willVisit j ∨ (∃ now, old = .free j now) → pc.willVisit j) :
    Attended ((s.setJob (w, i) { s.jobs (w, i) with state := .free }).setPc w pc) where
  inflight := by
    intro w' j hj
    by_cases hkey : (w', j) = (w, i)
    · cases hkey
      simp [setPc, setJob] at hj
    · simp only [setPc, setJob, Function.update_of_ne hkey] at hj
      refine (h.inflight w' j hj).imp_right ?_
      rintro ⟨u, c, hw'⟩
      have hne : w' ≠ w := by
        rintro rfl
        exact hkey (by rw [hopen u c j (hold.symm.trans hw')])
      exact ⟨u, c, by simpa [setPc, setJob, hne] using hw'⟩
  done := by
    intro w' j hj
    by_cases hkey : (w', j) = (w, i)
    · cases hkey
      simp [Done, setPc, setJob] at hj
    · simp only [Done, setPc, setJob, Function.update_of_ne hkey] at hj
      refine (h.done w' j hj).imp_right fun hrest => hrest.imp_right fun hvisits => ?_
      by_cases hw : w' = w
      · subst hw
        have hne : j ≠ i := by
          rintro rfl
          exact hkey rfl
        rw [hold] at hvisits
        simp only [setPc, Function.update_self]
        exact Or.inl (hvisit j hne hvisits)
      · simp only [setPc, Function.update_of_ne hw]
        exact hvisits

theorem Attended.take (h : Attended s) {r : Fin udpDnsResolverThreads} {q : UdpDnsReq}
    {rest : List UdpDnsReq} (hpc : s.resolver r = .wait) (hqueue : s.queue = q :: rest) :
    Attended (setResolver { s with queue := rest } r (.resolve q)) where
  inflight := by
    intro w j hj
    refine (h.inflight w j hj).imp_left ?_
    rintro (⟨q', hq', hkey⟩ | ⟨r', q', hq', hkey⟩)
    · rw [hqueue] at hq'
      rcases List.mem_cons.mp hq' with rfl | hrest
      · exact Or.inr ⟨r, q', by simp [setResolver, ResolverPc.request], hkey⟩
      · exact Or.inl ⟨q', hrest, hkey⟩
    · have hr : r' ≠ r := by
        rintro rfl
        rw [hpc] at hq'
        cases hq'
      exact Or.inr ⟨r', q', by simpa [setResolver, hr] using hq', hkey⟩
  done := by
    intro w j hj
    refine (h.done w j hj).imp_right fun hrest => hrest.imp_left ?_
    rintro ⟨r', q', hq', hkey⟩
    have hr : r' ≠ r := by
      rintro rfl
      rw [hpc] at hq'
      cases hq'
    exact ⟨r', q', by simpa [setResolver, hr] using hq', hkey⟩

theorem Attended.publish (h : Attended s) {r : Fin udpDnsResolverThreads} {q : UdpDnsReq}
    {ok : Bool} (hpc : s.resolver r = .publish q ok) :
    Attended ((s.setJob q.key
      { s.jobs q.key with state := if ok then .doneOk else .doneFail }).setResolver r (.wake q)) where
  inflight := by
    intro w j hj
    by_cases hkey : (w, j) = q.key
    · rw [hkey] at hj
      cases ok <;> simp [setResolver, setJob] at hj
    · simp only [setResolver, setJob, Function.update_of_ne hkey] at hj
      refine (h.inflight w j hj).imp_left fun hreq => hreq.imp_right ?_
      rintro ⟨r', q', hq', hkey'⟩
      have hr : r' ≠ r := by
        rintro rfl
        rw [hpc] at hq'
        exact hkey (Option.some.inj hq' ▸ hkey'.symm)
      exact ⟨r', q', by simpa [setResolver, setJob, hr] using hq', hkey'⟩
  done := by
    intro w j hj
    by_cases hkey : (w, j) = q.key
    · exact Or.inr (Or.inl ⟨r, q, Function.update_self .., hkey.symm⟩)
    · simp only [Done, setResolver, setJob, Function.update_of_ne hkey] at hj
      refine (h.done w j hj).imp_right fun hrest => hrest.imp_left ?_
      rintro ⟨r', q', hq', hkey'⟩
      have hr : r' ≠ r := by
        rintro rfl
        rw [hpc] at hq'
        cases hq'
      exact ⟨r', q', by simpa [setResolver, setJob, hr] using hq', hkey'⟩

theorem Attended.wakeWorker (h : Attended s) {r : Fin udpDnsResolverThreads} {q : UdpDnsReq}
    (hpc : s.resolver r = .wake q) :
    Attended (setResolver { s with woken := Function.update s.woken q.worker true } r .wait) where
  inflight := by
    intro w j hj
    refine (h.inflight w j hj).imp_left fun hreq => hreq.imp_right ?_
    rintro ⟨r', q', hq', hkey⟩
    have hr : r' ≠ r := by
      rintro rfl
      rw [hpc] at hq'
      cases hq'
    exact ⟨r', q', by simpa [setResolver, hr] using hq', hkey⟩
  done := by
    intro w j hj
    by_cases hw : w = q.worker
    · exact Or.inl (by simp [setResolver, hw])
    · simp only [setResolver, Function.update_of_ne hw]
      refine (h.done w j hj).imp_right fun hrest => hrest.imp_left ?_
      rintro ⟨r', q', hq', hkey⟩
      have hr : r' ≠ r := by
        rintro rfl
        rw [hpc] at hq'
        cases hq'
        exact hw (congrArg Prod.fst hkey).symm
      exact ⟨r', q', by simpa [hr] using hq', hkey⟩

theorem Attended.step {e : UdpDnsEvent} (h : Attended s) (ht : Transition inetPton s e t) :
    Attended t := by
  cases ht with
  | openSession | closeSession => exact ⟨h.inflight, h.done⟩
  | frame w u body c hpc | unrouted w now u c hpc | miss w now u c hpc | found w now u c ji hpc
  | jobsFull w now u c hpc | dropped w now u c hpc =>
      exact h.move hpc rfl rfl rfl rfl rfl (by rintro _ _ _ ⟨⟩) fun j _ hvisit => hvisit.elim
        (by rintro ⟨⟩) (by rintro ⟨_, ⟨⟩⟩)
  | literal w now u c dst hpc | hit w now u c dst hpc =>
      rcases udpSend5g_cases s u c c.payload dst with heq | ⟨-, heq⟩ <;> rw [heq]
      · exact h.move hpc rfl rfl rfl rfl rfl (by rintro _ _ _ ⟨⟩) fun j _ hvisit => hvisit.elim
          (by rintro ⟨⟩) (by rintro ⟨_, ⟨⟩⟩)
      · exact h.move hpc rfl rfl rfl rfl rfl (by rintro _ _ _ ⟨⟩) fun j _ hvisit => hvisit.elim
          (by rintro ⟨⟩) (by rintro ⟨_, ⟨⟩⟩)
  | wake w now hpc => exact h.wake w now hpc
  | opened w now u c ji hpc => exact h.opened hpc
  | enqueued w now u c ji hpc => exact h.enqueued hpc
  | rolledBack w now u c ji hpc =>
      refine h.closed hpc ?_ fun j _ hvisit => hvisit.elim (by rintro ⟨⟩) (by rintro ⟨_, ⟨⟩⟩)
      rintro u' c' ji' ⟨⟩
      rfl
  | held w now u c ji hpc =>
      rcases holdFrame_cases s u c with heq | ⟨k, -, heq⟩ <;> rw [heq]
      · exact h.move hpc rfl rfl rfl rfl rfl (by rintro _ _ _ ⟨⟩) fun j _ hvisit => hvisit.elim
          (by rintro ⟨⟩) (by rintro ⟨_, ⟨⟩⟩)
      · exact h.move hpc rfl rfl rfl rfl rfl (by rintro _ _ _ ⟨⟩) fun j _ hvisit => hvisit.elim
          (by rintro ⟨⟩) (by rintro ⟨_, ⟨⟩⟩)
  | skip w now i now' hpc hstate =>
      refine h.move hpc rfl rfl rfl rfl rfl (by rintro _ _ _ ⟨⟩) fun j hdone hvisit => ?_
      have hle := hvisit.resolve_right (by rintro ⟨_, ⟨⟩⟩)
      refine Or.inl (Nat.lt_of_le_of_ne hle fun heq => ?_)
      rw [← Fin.ext heq, Done] at hdone
      rcases hstate with hstate | hstate <;> rw [hstate] at hdone <;> exact hdone.elim
        (by rintro ⟨⟩) (by rintro ⟨⟩)
  | drained w now i now' hpc hi =>
      refine h.move hpc rfl rfl rfl rfl rfl (by rintro _ _ _ ⟨⟩) fun j _ hvisit => ?_
      have hle : i ≤ j := hvisit.resolve_right (by rintro ⟨_, ⟨⟩⟩)
      exact absurd (Nat.lt_of_le_of_lt (Nat.le_trans hi hle) j.isLt) (Nat.lt_irrefl _)
  | answer w now i now' dst hpc | noAnswer w now i now' hpc | put w now i dst now' hpc =>
      exact h.move hpc rfl rfl rfl rfl rfl (by rintro _ _ _ ⟨⟩) fun j _ hvisit => hvisit.imp_right
        (by rintro ⟨_, ⟨⟩⟩)
  | flush w now i dst now' hpc =>
      obtain ⟨sent, pend, heq, -⟩ := s.udpDnsFlushPending_clears w (s.jobs (w, i)).host dst
      rw [heq]
      exact h.move hpc rfl rfl rfl rfl rfl (by rintro _ _ _ ⟨⟩) fun j _ hvisit =>
        willVisit_free (hvisit.resolve_right (by rintro ⟨_, ⟨⟩⟩))
  | drop w now i now' hpc =>
      obtain ⟨sent, pend, heq, -⟩ := s.udpDnsDropPending_clears w (s.jobs (w, i)).host
      rw [heq]
      exact h.move hpc rfl rfl rfl rfl rfl (by rintro _ _ _ ⟨⟩) fun j _ hvisit =>
        willVisit_free (hvisit.resolve_right (by rintro ⟨_, ⟨⟩⟩))
  | free w now i now' hpc =>
      refine h.closed hpc (by rintro _ _ _ ⟨⟩) fun j hne hvisit => ?_
      rcases hvisit with hlt | ⟨now, ⟨⟩⟩
      · exact hlt
      · exact absurd rfl hne
  | take r answer q rest hpc hqueue => exact h.take hpc hqueue
  | resolved r q ip hpc | refused r q ip hpc | unresolved r q hpc =>
      exact h.moveResolver (r := r) (by rw [hpc]; rfl) (fun _ => rfl) rfl rfl rfl rfl rfl
  | write r answer q ip hpc =>
      refine h.moveResolver (r := r) (by rw [hpc]; rfl) (fun key => ?_) rfl rfl rfl rfl rfl
      by_cases hkey : key = q.key
      · subst hkey
        simp [setResolver, setJob]
      · simp [setResolver, setJob, hkey]
  | publish r answer q ok hpc => exact h.publish hpc
  | wakeWorker r answer q hpc => exact h.wakeWorker hpc
  | restart =>
      exact ⟨fun _ _ hj => absurd hj (by rintro ⟨⟩), fun _ _ hj => hj.elim (by rintro ⟨⟩)
        (by rintro ⟨⟩)⟩

/-! ### Every held frame has a job -/

def HasOpenJob (s : UdpDns) (w : Fin udpWorkerCount) (host : Host) : Prop :=
  ∃ j, (s.jobs (w, j)).state ≠ .free ∧ (s.jobs (w, j)).host = host ∧
    ∀ u c, s.pc w ≠ .enqueue u c j

structure Attached (s : UdpDns) : Prop where
  listed : ∀ w, ∀ u ∈ s.connList w,
    u < s.nSessions ∧ (s.session u).widx = w ∧ (s.session u).magic = true
  serving : ∀ w u, (s.pc w).serves = some u → u < s.nSessions ∧ (s.session u).widx = w
  held : ∀ w, ∀ u ∈ s.connList w, ∀ k, (s.pend (u, k)).used = true →
    s.HasOpenJob w (s.pend (u, k)).host
  holding : ∀ w u c ji, s.pc w = .hold u c (some ji) →
    (s.jobs (w, ji)).state ≠ .free ∧ (s.jobs (w, ji)).host = c.host
  cleared : ∀ w i now, s.pc w = .free i now → s.NoneHeld w (s.jobs (w, i)).host

theorem Attached.init : Attached UdpDns.init where
  listed := fun _ _ h => absurd h List.not_mem_nil
  serving := nofun
  held := fun _ _ h => absurd h List.not_mem_nil
  holding := nofun
  cleared := nofun

/-- A worker goes on without touching the jobs and the held frames. -/
theorem Attached.move (h : Attached s) {w : Fin udpWorkerCount} {old pc : UdpWorkerPc}
    (hold : s.pc w = old) (hjobs : t.jobs = s.jobs) (hsession : t.session = s.session)
    (hn : t.nSessions = s.nSessions) (hlist : t.connList = s.connList) (hpend : t.pend = s.pend)
    (hpc : t.pc = Function.update s.pc w pc)
    (hserves : ∀ u, pc.serves = some u → old.serves = some u ∨ u ∈ s.connList w)
    (hopen : ∀ u c ji, pc ≠ .enqueue u c ji)
    (hholding : ∀ u c ji, pc = .hold u c (some ji) →
      (s.jobs (w, ji)).state ≠ .free ∧ (s.jobs (w, ji)).host = c.host)
    (hfree : ∀ i now, pc ≠ .free i now) : Attached t where
  listed := by
    rw [hlist, hsession, hn]
    exact h.listed
  serving := by
    intro w' u hu
    rw [hsession, hn]
    rw [hpc] at hu
    by_cases hw : w' = w
    · subst hw
      rw [Function.update_self] at hu
      rcases hserves u hu with hold' | hmem
      · exact h.serving w' u (hold ▸ hold')
      · exact ⟨(h.listed w' u hmem).1, (h.listed w' u hmem).2.1⟩
    · rw [Function.update_of_ne hw] at hu
      exact h.serving w' u hu
  held := by
    intro w' u hu k hused
    rw [hlist] at hu
    rw [hpend] at hused ⊢
    obtain ⟨j, hstate, hhost, hj⟩ := h.held w' u hu k hused
    refine ⟨j, by rwa [hjobs], by rwa [hjobs], fun u' c => ?_⟩
    rw [hpc]
    by_cases hw : w' = w
    · subst hw
      rw [Function.update_self]
      exact hopen u' c j
    · rw [Function.update_of_ne hw]
      exact hj u' c
  holding := by
    intro w' u c ji hw'
    rw [hpc] at hw'
    rw [hjobs]
    by_cases hw : w' = w
    · subst hw
      rw [Function.update_self] at hw'
      exact hholding u c ji hw'
    · rw [Function.update_of_ne hw] at hw'
      exact h.holding w' u c ji hw'
  cleared := by
    intro w' i now hw'
    rw [hpc] at hw'
    rw [NoneHeld, hlist, hpend, hjobs]
    by_cases hw : w' = w
    · subst hw
      rw [Function.update_self] at hw'
      exact absurd hw' (hfree i now)
    · rw [Function.update_of_ne hw] at hw'
      exact h.cleared w' i now hw'

theorem Attached.moveResolver (h : Attached s)
    (hstate : ∀ key, (s.jobs key).state ≠ .free → (t.jobs key).state ≠ .free)
    (hhost : ∀ key, (t.jobs key).host = (s.jobs key).host) (hsession : t.session = s.session)
    (hn : t.nSessions = s.nSessions) (hlist : t.connList = s.connList) (hpend : t.pend = s.pend)
    (hpc : t.pc = s.pc) : Attached t where
  listed := by
    rw [hlist, hsession, hn]
    exact h.listed
  serving := by
    rw [hpc, hsession, hn]
    exact h.serving
  held := by
    rw [hlist, hpend]
    intro w u hu k hused
    obtain ⟨j, hj, hsame, hopen⟩ := h.held w u hu k hused
    exact ⟨j, hstate _ hj, (hhost _).trans hsame, hpc ▸ hopen⟩
  holding := by
    rw [hpc]
    intro w u c ji hw
    exact (h.holding w u c ji hw).imp (hstate _) (hhost _).trans
  cleared := by
    rw [hpc]
    intro w i now hw
    rw [NoneHeld, hlist, hpend, hhost]
    exact h.cleared w i now hw

theorem Attached.opened (h : Attached s) {w : Fin udpWorkerCount} {u : ℕ} {c : RouteCall}
    {ji : Fin udpDnsJobCount} (hpc : s.pc w = .defer u c)
    (hfree : (s.jobs (w, ji)).state = .free) :
    Attached ((s.setJob (w, ji) ⟨.inflight, c.host, c.port, []⟩).setPc w (.enqueue u c ji)) := by
  have hkeep : ∀ key, (s.jobs key).state ≠ .free →
      Function.update s.jobs (w, ji) ⟨.inflight, c.host, c.port, []⟩ key = s.jobs key := by
    intro key hkey
    refine Function.update_of_ne ?_ _ _
    rintro rfl
    exact hkey hfree
  refine ⟨h.listed, fun w' u' hu' => ?_, fun w' u' hu' k hused => ?_, fun w' u' c' ji' hw' => ?_,
    fun w' i now hw' => ?_⟩
  · by_cases hw : w' = w
    · subst hw
      simp only [setPc, Function.update_self] at hu'
      exact h.serving w' u' (by rw [hpc]; exact hu')
    · simp only [setPc, Function.update_of_ne hw] at hu'
      exact h.serving w' u' hu'
  · obtain ⟨j, hstate, hhost, hj⟩ := h.held w' u' hu' k hused
    refine ⟨j, ?_, ?_, fun u₁ c₁ => ?_⟩
    · simp only [setPc, setJob, hkeep _ hstate]
      exact hstate
    · simp only [setPc, setJob, hkeep _ hstate]
      exact hhost
    · by_cases hw : w' = w
      · subst hw
        simp only [setPc, Function.update_self]
        rintro ⟨⟩
        exact hstate hfree
      · simp only [setPc, Function.update_of_ne hw]
        exact hj u₁ c₁
  · by_cases hw : w' = w
    · subst hw
      simp [setPc] at hw'
    · simp only [setPc, Function.update_of_ne hw] at hw'
      obtain ⟨hstate, hhost⟩ := h.holding w' u' c' ji' hw'
      simp only [setPc, setJob, hkeep _ hstate]
      exact ⟨hstate, hhost⟩
  · by_cases hw : w' = w
    · subst hw
      simp [setPc] at hw'
    · simp only [setPc, Function.update_of_ne hw] at hw'
      have hne : (w', i) ≠ (w, ji) := fun heq => hw (congrArg Prod.fst heq)
      simp only [setPc, setJob, Function.update_of_ne hne]
      exact h.cleared w' i now hw'

theorem Attached.closed (h : Attached s) {w : Fin udpWorkerCount} {i : Fin udpDnsJobCount}
    {old pc : UdpWorkerPc} (hold : s.pc w = old)
    (hlast : (∃ u c, old = .enqueue u c i) ∨ s.NoneHeld w (s.jobs (w, i)).host)
    (hserves : ∀ u, pc.serves = some u → old.serves = some u)
    (hopen : ∀ u c ji, pc ≠ .enqueue u c ji) (hholding : ∀ u c ji, pc ≠ .hold u c (some ji))
    (hfree : ∀ j now, pc ≠ .free j now) :
    Attached ((s.setJob (w, i) { s.jobs (w, i) with state := .free }).setPc w pc) := by
  refine ⟨h.listed, fun w' u' hu' => ?_, fun w' u' hu' k hused => ?_, fun w' u' c' ji' hw' => ?_,
    fun w' j now hw' => ?_⟩
  · by_cases hw : w' = w
    · subst hw
      simp only [setPc, Function.update_self] at hu'
      exact h.serving w' u' (by rw [hold]; exact hserves u' hu')
    · simp only [setPc, Function.update_of_ne hw] at hu'
      exact h.serving w' u' hu'
  · obtain ⟨j, hstate, hhost, hj⟩ := h.held w' u' hu' k hused
    have hne : (w', j) ≠ (w, i) := by
      rintro ⟨⟩
      rcases hlast with ⟨u₁, c₁, rfl⟩ | hnone
      · exact hj u₁ c₁ hold
      · exact hnone u' hu' k hused hhost.symm
    refine ⟨j, ?_, ?_, fun u₁ c₁ => ?_⟩
    · simp only [setPc, setJob, Function.update_of_ne hne]
      exact hstate
    · simp only [setPc, setJob, Function.update_of_ne hne]
      exact hhost
    · by_cases hw : w' = w
      · subst hw
        simp only [setPc, Function.update_self]
        exact hopen u₁ c₁ j
      · simp only [setPc, Function.update_of_ne hw]
        exact hj u₁ c₁
  · by_cases hw : w' = w
    · subst hw
      simp only [setPc, Function.update_self] at hw'
      exact absurd hw' (hholding u' c' ji')
    · simp only [setPc, Function.update_of_ne hw] at hw'
      have hne : (w', ji') ≠ (w, i) := fun heq => hw (congrArg Prod.fst heq)
      simp only [setPc, setJob, Function.update_of_ne hne]
      exact h.holding w' u' c' ji' hw'
  · by_cases hw : w' = w
    · subst hw
      simp only [setPc, Function.update_self] at hw'
      exact absurd hw' (hfree j now)
    · simp only [setPc, Function.update_of_ne hw] at hw'
      have hne : (w', j) ≠ (w, i) := fun heq => hw (congrArg Prod.fst heq)
      simp only [setPc, setJob, Function.update_of_ne hne]
      exact h.cleared w' j now hw'

/-- A frame goes into a slot of the session that the worker serves. -/
theorem Attached.keep (h : Attached s) {w : Fin udpWorkerCount} {u : ℕ} {c : RouteCall}
    {ji : Fin udpDnsJobCount} {k : Fin udpDnsPendSlots} (hpc : s.pc w = .hold u c (some ji)) :
    Attached (setPc
      { s with pend := Function.update s.pend (u, k) ⟨true, c.host, c.port, c.payload, c⟩ } w
      .idle) := by
  have hwidx : (s.session u).widx = w := (h.serving w u (by rw [hpc]; rfl)).2
  have hne : ∀ w' u' k', u' ∈ s.connList w' → w' ≠ w → (u', k') ≠ (u, k) := by
    rintro w' u' k' hu' hw ⟨⟩
    exact hw ((h.listed w' _ hu').2.1.symm.trans hwidx)
  have hidle : ∀ w' j, s.HasOpenJob w' j → HasOpenJob (setPc
      { s with pend := Function.update s.pend (u, k) ⟨true, c.host, c.port, c.payload, c⟩ } w
      .idle) w' j := by
    rintro w' host ⟨j, hstate, hhost, hj⟩
    refine ⟨j, hstate, hhost, fun u₁ c₁ => ?_⟩
    by_cases hw : w' = w
    · subst hw
      simp [setPc]
    · simp only [setPc, Function.update_of_ne hw]
      exact hj u₁ c₁
  refine ⟨h.listed, fun w' u' hu' => ?_, fun w' u' hu' k' hused => ?_, fun w' u' c' ji' hw' => ?_,
    fun w' i now hw' => ?_⟩
  · by_cases hw : w' = w
    · subst hw
      simp [setPc, UdpWorkerPc.serves] at hu'
    · simp only [setPc, Function.update_of_ne hw] at hu'
      exact h.serving w' u' hu'
  · refine hidle w' _ ?_
    by_cases hslot : (u', k') = (u, k)
    · have hw : w' = w := by
        by_contra hw
        exact hne w' u' k' hu' hw hslot
      subst hw
      simp only [setPc, hslot, Function.update_self]
      obtain ⟨hstate, hhost⟩ := h.holding w' u c ji hpc
      refine ⟨ji, hstate, hhost, fun u₁ c₁ => ?_⟩
      rw [hpc]
      rintro ⟨⟩
    · simp only [setPc, Function.update_of_ne hslot] at hused ⊢
      exact h.held w' u' hu' k' hused
  · by_cases hw : w' = w
    · subst hw
      simp [setPc] at hw'
    · simp only [setPc, Function.update_of_ne hw] at hw'
      exact h.holding w' u' c' ji' hw'
  · by_cases hw : w' = w
    · subst hw
      simp [setPc] at hw'
    · simp only [setPc, Function.update_of_ne hw] at hw'
      intro u' hu' k' hused
      simp only [setPc, Function.update_of_ne (hne w' u' k' hu' hw)] at hused ⊢
      exact h.cleared w' i now hw' u' hu' k' hused

/-- After the loop over the held frames none is left for the name of the job. -/
theorem Attached.clear (h : Attached s) {w : Fin udpWorkerCount} {i : Fin udpDnsJobCount} {now : ℕ}
    {dst : Option SockAddr} {x : UdpDns} (hx : s.Clears x w (s.jobs (w, i)).host dst) :
    Attached (x.setPc w (.free i now)) := by
  obtain ⟨sent, pend, rfl, hold, -, hclear, -⟩ := hx
  refine ⟨h.listed, fun w' u' hu' => ?_, fun w' u' hu' k hused => ?_, fun w' u' c' ji' hw' => ?_,
    fun w' j now' hw' => ?_⟩
  · by_cases hw : w' = w
    · subst hw
      simp [setPc, UdpWorkerPc.serves] at hu'
    · simp only [setPc, Function.update_of_ne hw] at hu'
      exact h.serving w' u' hu'
  · have hsame : pend (u', k) = s.pend (u', k) := hold _ hused
    obtain ⟨j, hstate, hhost, hj⟩ := h.held w' u' hu' k (hsame ▸ hused)
    refine ⟨j, hstate, hhost.trans (congrArg UdpDnsPend.host hsame).symm, fun u₁ c₁ => ?_⟩
    by_cases hw : w' = w
    · subst hw
      simp [setPc]
    · simp only [setPc, Function.update_of_ne hw]
      exact hj u₁ c₁
  · by_cases hw : w' = w
    · subst hw
      simp [setPc] at hw'
    · simp only [setPc, Function.update_of_ne hw] at hw'
      exact h.holding w' u' c' ji' hw'
  · by_cases hw : w' = w
    · subst hw
      simp only [setPc, Function.update_self] at hw'
      cases hw'
      exact fun u' hu' k hused => hclear (u', k) hu' (h.listed w' u' hu').2.2 hused
    · simp only [setPc, Function.update_of_ne hw] at hw'
      intro u' hu' k hused
      have hsame : pend (u', k) = s.pend (u', k) := hold _ hused
      show (pend (u', k)).host ≠ _
      rw [hsame]
      exact h.cleared w' j now' hw' u' hu' k (hsame ▸ hused)

theorem Attached.link (h : Attached s) (w : Fin udpWorkerCount) (remoteOpen : Bool) :
    Attached (s.link w remoteOpen) := by
  have hmem : ∀ w' u, u ∈ Function.update s.connList w (s.nSessions :: s.connList w) w' →
      u = s.nSessions ∧ w' = w ∨ u ∈ s.connList w' ∧ u ≠ s.nSessions := by
    intro w' u hu
    by_cases hw : w' = w
    · subst hw
      rw [Function.update_self] at hu
      rcases List.mem_cons.mp hu with rfl | hold
      · exact Or.inl ⟨rfl, rfl⟩
      · exact Or.inr ⟨hold, Nat.ne_of_lt (h.listed w' u hold).1⟩
    · rw [Function.update_of_ne hw] at hu
      exact Or.inr ⟨hu, Nat.ne_of_lt (h.listed w' u hu).1⟩
  refine ⟨fun w' u hu => ?_, fun w' u hu => ?_, fun w' u hu k hused => ?_, h.holding,
    fun w' i now hw' u hu k hused => ?_⟩
  · rcases hmem w' u hu with ⟨rfl, rfl⟩ | ⟨hold, hne⟩
    · simp [UdpDns.link]
    · simp only [UdpDns.link, Function.update_of_ne hne]
      exact (h.listed w' u hold).imp_left Nat.lt_succ_of_lt
  · obtain ⟨hlt, hwidx⟩ := h.serving w' u hu
    simp only [UdpDns.link, Function.update_of_ne (Nat.ne_of_lt hlt)]
    exact ⟨Nat.lt_succ_of_lt hlt, hwidx⟩
  · rcases hmem w' u hu with ⟨rfl, -⟩ | ⟨hold, hne⟩
    · simp [UdpDns.link, emptyPend] at hused
    · simp only [UdpDns.link, if_neg hne] at hused ⊢
      exact h.held w' u hold k hused
  · rcases hmem w' u hu with ⟨rfl, -⟩ | ⟨hold, hne⟩
    · simp [UdpDns.link, emptyPend] at hused
    · simp only [UdpDns.link, if_neg hne] at hused ⊢
      exact h.cleared w' i now hw' u hold k hused

theorem Attached.unlink (h : Attached s) (w : Fin udpWorkerCount) (u : ℕ) :
    Attached (s.unlink w u) := by
  have hsession : ∀ u', ((s.unlink w u).session u').widx = (s.session u').widx ∧
      ((s.unlink w u).session u').magic = (s.session u').magic := by
    intro u'
    by_cases hu : u' = u
    · subst hu
      simp [UdpDns.unlink]
    · simp [UdpDns.unlink, hu]
  have hlist : ∀ w' u', u' ∈ (s.unlink w u).connList w' → u' ∈ s.connList w' := by
    intro w' u' hu'
    by_cases hw : w' = w
    · subst hw
      simp only [UdpDns.unlink, Function.update_self] at hu'
      exact List.mem_of_mem_erase hu'
    · simpa only [UdpDns.unlink, Function.update_of_ne hw] using hu'
  refine ⟨fun w' u' hu' => ?_, fun w' u' hu' => ?_, fun w' u' hu' => h.held w' u' (hlist w' u' hu'),
    h.holding, fun w' i now hw' u' hu' => h.cleared w' i now hw' u' (hlist w' u' hu')⟩
  · rw [(hsession u').1, (hsession u').2]
    exact h.listed w' u' (hlist w' u' hu')
  · rw [(hsession u').1]
    exact h.serving w' u' hu'

theorem Attached.restarted (h : s.Quiet) : Attached s.restarted := by
  have hpc : ∀ w, s.pc w = .idle := fun w => UdpWorkerPc.eq_idle (h.1 w)
  refine ⟨fun _ _ hu => absurd hu List.not_mem_nil, fun w u hu => ?_,
    fun _ _ hu => absurd hu List.not_mem_nil, fun w u c ji hw => ?_, fun w i now hw => ?_⟩
  · simp [UdpDns.restarted, hpc w, UdpWorkerPc.serves] at hu
  · simp [UdpDns.restarted, hpc w] at hw
  · simp [UdpDns.restarted, hpc w] at hw

theorem Attached.step {e : UdpDnsEvent} (h : Attached s) (hserved : Served s)
    (ht : Transition inetPton s e t) : Attached t := by
  cases ht with
  | openSession w remoteOpen => exact h.link w remoteOpen
  | closeSession w u => exact h.unlink w u
  | frame w u body c hpc hu =>
      refine h.move hpc rfl rfl rfl rfl rfl rfl ?_ (by rintro _ _ _ ⟨⟩) (by rintro _ _ _ ⟨⟩)
        (by rintro _ _ ⟨⟩)
      rintro _ ⟨⟩
      exact Or.inr hu
  | wake w now hpc | unrouted w now u c hpc | dropped w now u c hpc | skip w now i now' hpc
  | drained w now i now' hpc | answer w now i now' dst hpc | noAnswer w now i now' hpc
  | put w now i dst now' hpc =>
      exact h.move hpc rfl rfl rfl rfl rfl rfl (by rintro _ ⟨⟩) (by rintro _ _ _ ⟨⟩)
        (by rintro _ _ _ ⟨⟩) (by rintro _ _ ⟨⟩)
  | literal w now u c dst hpc | hit w now u c dst hpc =>
      rcases udpSend5g_cases s u c c.payload dst with heq | ⟨-, heq⟩ <;> rw [heq]
      · exact h.move hpc rfl rfl rfl rfl rfl rfl (by rintro _ ⟨⟩) (by rintro _ _ _ ⟨⟩)
          (by rintro _ _ _ ⟨⟩) (by rintro _ _ ⟨⟩)
      · exact h.move hpc rfl rfl rfl rfl rfl rfl (by rintro _ ⟨⟩) (by rintro _ _ _ ⟨⟩)
          (by rintro _ _ _ ⟨⟩) (by rintro _ _ ⟨⟩)
  | miss w now u c hpc | jobsFull w now u c hpc =>
      exact h.move hpc rfl rfl rfl rfl rfl rfl (fun _ hu => Or.inl hu) (by rintro _ _ _ ⟨⟩)
        (by rintro _ _ _ ⟨⟩) (by rintro _ _ ⟨⟩)
  | found w now u c ji hpc hfind =>
      refine h.move hpc rfl rfl rfl rfl rfl rfl (fun _ hu => Or.inl hu) (by rintro _ _ _ ⟨⟩) ?_
        (by rintro _ _ ⟨⟩)
      rintro _ _ _ ⟨⟩
      exact udpDnsJobFind_eq_some hfind
  | opened w now u c ji hpc hfind halloc => exact h.opened hpc (udpDnsJobAlloc_eq_some halloc)
  | enqueued w now u c ji hpc =>
      obtain ⟨owner, hreq⟩ := hserved.requests
      have hin := (hreq.opened w u c ji hpc).2
      refine h.move hpc rfl rfl rfl rfl rfl rfl (fun _ hu => Or.inl hu) (by rintro _ _ _ ⟨⟩) ?_
        (by rintro _ _ ⟨⟩)
      rintro _ _ _ ⟨⟩
      exact ⟨hin.ne_free, hin.2⟩
  | rolledBack w now u c ji hpc =>
      exact h.closed hpc (Or.inl ⟨u, c, rfl⟩) (fun _ hu => hu) (by rintro _ _ _ ⟨⟩)
        (by rintro _ _ _ ⟨⟩) (by rintro _ _ ⟨⟩)
  | held w now u c ji hpc =>
      rcases holdFrame_cases s u c with heq | ⟨k, -, heq⟩ <;> rw [heq]
      · exact h.move hpc rfl rfl rfl rfl rfl rfl (by rintro _ ⟨⟩) (by rintro _ _ _ ⟨⟩)
          (by rintro _ _ _ ⟨⟩) (by rintro _ _ ⟨⟩)
      · exact h.keep hpc
  | flush w now i dst now' hpc => exact h.clear (s.udpDnsFlushPending_clears w _ dst)
  | drop w now i now' hpc => exact h.clear (s.udpDnsDropPending_clears w _)
  | free w now i now' hpc =>
      exact h.closed hpc (Or.inr (h.cleared w i now' hpc)) (by rintro _ ⟨⟩) (by rintro _ _ _ ⟨⟩)
        (by rintro _ _ _ ⟨⟩) (by rintro _ _ ⟨⟩)
  | take | resolved | refused | unresolved | wakeWorker =>
      exact h.moveResolver (fun _ hkey => hkey) (fun _ => rfl) rfl rfl rfl rfl rfl
  | write r answer q ip hpc =>
      refine h.moveResolver (fun key hkey => ?_) (fun key => ?_) rfl rfl rfl rfl rfl
      · by_cases heq : key = q.key
        · subst heq
          simpa [setResolver, setJob] using hkey
        · simpa [setResolver, setJob, heq] using hkey
      · by_cases heq : key = q.key
        · subst heq
          simp [setResolver, setJob]
        · simp [setResolver, setJob, heq]
  | publish r answer q ok hpc =>
      refine h.moveResolver (fun key hkey => ?_) (fun key => ?_) rfl rfl rfl rfl rfl
      · by_cases heq : key = q.key
        · subst heq
          cases ok <;> simp [setResolver, setJob]
        · simpa [setResolver, setJob, heq] using hkey
      · by_cases heq : key = q.key
        · subst heq
          simp [setResolver, setJob]
        · simp [setResolver, setJob, heq]
  | restart hquiet => exact Attached.restarted hquiet

/-! ### The frames of a state -/

/-- What every reachable state has. -/
structure Tended (s : UdpDns) : Prop where
  served : Served s
  attended : Attended s
  attached : Attached s

theorem Tended.init : Tended UdpDns.init := ⟨Served.init, Attended.init, Attached.init⟩

theorem Tended.step {e : UdpDnsEvent} (h : Tended s) (hstep : UdpDns.step inetPton s e = some t) :
    Tended t :=
  have ht := transition_of_step hstep
  ⟨h.served.step ht, h.attended.step ht, h.attached.step h.served ht⟩

theorem Tended.inHand (h : Tended s) {w : Fin udpWorkerCount} {u : ℕ} {k : Fin udpDnsPendSlots}
    (hu : u ∈ s.connList w) (hused : (s.pend (u, k)).used = true) :
    ∃ j, (s.jobs (w, j)).host = (s.pend (u, k)).host ∧ s.InHand w j := by
  obtain ⟨j, hstate, hhost, hopen⟩ := h.attached.held w u hu k hused
  have hfree : ∀ now, s.pc w ≠ .free j now := by
    intro now hpc
    exact h.attached.cleared w j now hpc u hu k hused hhost.symm
  refine ⟨j, hhost, ?_⟩
  cases hj : (s.jobs (w, j)).state with
  | free => exact absurd hj hstate
  | inflight =>
      refine Or.inl ⟨hj, (h.attended.inflight w j hj).resolve_right ?_⟩
      rintro ⟨u', c, hpc⟩
      exact hopen u' c hpc
  | doneOk | doneFail =>
      have hdone : s.Done (w, j) := by simp [Done, hj]
      refine Or.inr ⟨hdone, (h.attended.done w j hdone).imp_right fun hrest =>
        hrest.imp_right fun hvisit => hvisit.resolve_right ?_⟩
      rintro ⟨now, hpc⟩
      exact hfree now hpc

end UdpDns

end FiveGProxy
