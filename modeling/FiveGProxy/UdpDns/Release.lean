import FiveGProxy.UdpDns.Pending
import Mathlib.Data.List.Basic

/-!
# A held frame does not wait for ever

The rank of a thread is the number of steps that it needs at most before it waits again. A held
frame is followed from the queue of requests to the loop that releases it: the resolvers take the
requests in turn, the one that has the request of its job publishes an answer and writes to the
pipe, and the worker finds the pipe readable and comes to the job.
-/

namespace FiveGProxy

open Steps

def UdpWorkerPc.rank : UdpWorkerPc → ℕ
  | idle => 0
  | hold _ _ _ => 1
  | enqueue _ _ _ => 2
  | defer _ _ => 3
  | route _ _ => 4
  | drain i _ => 5 * (udpDnsJobCount - i) + 1
  | put i _ _ => 5 * (udpDnsJobCount - i)
  | flush i _ _ | drop i _ => 5 * (udpDnsJobCount - i) - 1
  | free i _ => 5 * (udpDnsJobCount - i) - 2

def ResolverPc.rank : ResolverPc → ℕ
  | wait => 0
  | wake _ => 1
  | publish _ _ => 2
  | write _ _ => 3
  | resolve _ => 4

def workerTurns (w : Fin udpWorkerCount) : Set UdpDnsEvent := {e | ∃ now, e = .worker w now}

def wakeTurns (w : Fin udpWorkerCount) : Set UdpDnsEvent := {e | ∃ now, e = .wake w now}

def resolverTurns (r : Fin udpDnsResolverThreads) : Set UdpDnsEvent :=
  {e | ∃ answer, e = .resolver r answer}

namespace UdpDns

variable {inetPton : InetPton} {s t : UdpDns}

/-! ### What a step does to one thread -/

theorem worker_move_own {x : UdpDns} {w' : Fin udpWorkerCount} {now : ℕ} {old pc : UdpWorkerPc}
    (hold : s.pc w' = old) (hx : x.pc = s.pc) (hrank : pc.rank < old.rank)
    (hvisit : ∀ j, s.Done (w', j) → old.willVisit j → pc.willVisit j ∨ ∃ now, pc = .free j now)
    (w : Fin udpWorkerCount) :
    (x.setPc w' pc).pc w = s.pc w ∧ UdpDnsEvent.worker w' now ∉ workerTurns w ∨
      s.pc w = .idle ∧ UdpDnsEvent.worker w' now ∉ workerTurns w ∨
      ((x.setPc w' pc).pc w).rank < (s.pc w).rank ∧ ∀ j, s.Done (w, j) → (s.pc w).willVisit j →
        ((x.setPc w' pc).pc w).willVisit j ∨ ∃ now, (x.setPc w' pc).pc w = .free j now := by
  by_cases hw : w = w'
  · subst hw
    simp only [setPc, Function.update_self, hold]
    exact Or.inr (Or.inr ⟨hrank, hvisit⟩)
  · refine Or.inl ⟨?_, ?_⟩
    · simp only [setPc, Function.update_of_ne hw, hx]
    · rintro ⟨now', ⟨⟩⟩
      exact hw rfl

/-- A worker stays where it is, begins a turn, or comes nearer to the end of its turn without
passing a done job by. -/
theorem worker_move {e : UdpDnsEvent} (ht : Transition inetPton s e t) (w : Fin udpWorkerCount) :
    t.pc w = s.pc w ∧ e ∉ workerTurns w ∨ s.pc w = .idle ∧ e ∉ workerTurns w ∨
      (t.pc w).rank < (s.pc w).rank ∧ ∀ j, s.Done (w, j) → (s.pc w).willVisit j →
        (t.pc w).willVisit j ∨ ∃ now, t.pc w = .free j now := by
  cases ht with
  | openSession | closeSession | take | resolved | refused | unresolved | write | publish
  | wakeWorker | restart => exact Or.inl ⟨rfl, by rintro ⟨_, ⟨⟩⟩⟩
  | frame w' u body c hpc | wake w' now hpc =>
      by_cases hw : w = w'
      · exact Or.inr (Or.inl ⟨hw ▸ hpc, by rintro ⟨_, ⟨⟩⟩⟩)
      · exact Or.inl ⟨Function.update_of_ne hw _ _, by rintro ⟨_, ⟨⟩⟩⟩
  | literal w' now u c dst hpc | hit w' now u c dst hpc =>
      exact worker_move_own hpc (udpSend5g_same s u c _ dst).pc (by simp [UdpWorkerPc.rank])
        (fun _ _ => by rintro ⟨⟩) w
  | held w' now u c ji hpc =>
      exact worker_move_own hpc (holdFrame_same s u c).pc (by simp [UdpWorkerPc.rank])
        (fun _ _ => by rintro ⟨⟩) w
  | unrouted w' now u c hpc | miss w' now u c hpc | found w' now u c ji hpc
  | opened w' now u c ji hpc | jobsFull w' now u c hpc | enqueued w' now u c ji hpc
  | rolledBack w' now u c ji hpc | dropped w' now u c hpc =>
      exact worker_move_own hpc rfl (by simp [UdpWorkerPc.rank]) (fun _ _ => by rintro ⟨⟩) w
  | skip w' now i now' hpc hstate =>
      refine worker_move_own hpc rfl ?_ (fun j hdone hle => Or.inl ?_) w
      · simp only [UdpWorkerPc.rank]
        omega
      · refine Nat.lt_of_le_of_ne hle fun heq => ?_
        rw [← Fin.ext heq, Done] at hdone
        rcases hstate with hstate | hstate <;> rw [hstate] at hdone <;> exact hdone.elim
          (by rintro ⟨⟩) (by rintro ⟨⟩)
  | drained w' now i now' hpc hi =>
      refine worker_move_own hpc rfl (by simp [UdpWorkerPc.rank]) (fun j _ hle => ?_) w
      exact absurd (Nat.lt_of_le_of_lt (Nat.le_trans hi hle) j.isLt) (Nat.lt_irrefl _)
  | answer w' now i now' dst hpc | noAnswer w' now i now' hpc | put w' now i dst now' hpc =>
      refine worker_move_own hpc rfl ?_ (fun j _ hle => Or.inl ?_) w
      · simp only [UdpWorkerPc.rank]
        omega
      · exact hle
  | flush w' now i dst now' hpc =>
      refine worker_move_own hpc (s.udpDnsFlushPending_clears w' _ dst).same.pc ?_
        (fun j _ hle => willVisit_free hle) w
      simp only [UdpWorkerPc.rank]
      omega
  | drop w' now i now' hpc =>
      refine worker_move_own hpc (s.udpDnsDropPending_clears w' _).same.pc ?_
        (fun j _ hle => willVisit_free hle) w
      simp only [UdpWorkerPc.rank]
      omega
  | free w' now i now' hpc =>
      refine worker_move_own hpc rfl ?_ (fun j _ hlt => Or.inl ?_) w
      · simp only [UdpWorkerPc.rank]
        omega
      · exact hlt

theorem workerStep_isSome {w : Fin udpWorkerCount} {now : ℕ} (h : s.pc w ≠ .idle) :
    (s.workerStep inetPton w now).isSome = true := by
  unfold workerStep
  cases hpc : s.pc w with
  | idle => exact absurd hpc h
  | hold u c ji => cases ji <;> rfl
  | route u c | defer u c | enqueue u c ji | drain i now' =>
      simp only
      repeat' split
      all_goals rfl
  | put i dst now' => rfl
  | flush i dst now' => rfl
  | drop i now' => rfl
  | free i now' => rfl

/-- What a step does to the resolvers and to the queue. -/
inductive ResolverMove (s t : UdpDns) (e : UdpDnsEvent) : Prop
  | others (added : List UdpDnsReq) (hqueue : t.queue = s.queue ++ added)
      (hres : t.resolver = s.resolver) (he : ∀ r, e ∉ resolverTurns r)
  | take (r : Fin udpDnsResolverThreads) (q : UdpDnsReq) (rest : List UdpDnsReq)
      (hwait : s.resolver r = .wait) (hqueue : s.queue = q :: rest) (hrest : t.queue = rest)
      (hres : t.resolver = Function.update s.resolver r (.resolve q))
      (he : ∀ r', e ∈ resolverTurns r' → r' = r)
  | work (r : Fin udpDnsResolverThreads) (pc : ResolverPc) (hreq : (s.resolver r).request ≠ none)
      (hrank : pc.rank < (s.resolver r).rank) (hqueue : t.queue = s.queue)
      (hres : t.resolver = Function.update s.resolver r pc)
      (hpc : pc.request = (s.resolver r).request ∨
        ∃ q, (s.resolver r).request = some q ∧ pc = .wake q ∧ t.Done q.key)
      (he : ∀ r', e ∈ resolverTurns r' → r' = r)
  | wake (r : Fin udpDnsResolverThreads) (q : UdpDnsReq) (hwake : s.resolver r = .wake q)
      (hwoken : t.woken q.worker = true) (hqueue : t.queue = s.queue)
      (hres : t.resolver = Function.update s.resolver r .wait)
      (he : ∀ r', e ∈ resolverTurns r' → r' = r)

theorem resolver_move {e : UdpDnsEvent} (ht : Transition inetPton s e t) : ResolverMove s t e := by
  have hturn : ∀ {r answer}, ∀ r', UdpDnsEvent.resolver r answer ∈ resolverTurns r' → r' = r := by
    rintro r answer r' ⟨answer', ⟨⟩⟩
    rfl
  cases ht with
  | openSession | closeSession | frame | wake | unrouted | miss | found | opened | jobsFull
  | rolledBack | dropped | skip | drained | answer | noAnswer | put | free | restart =>
      exact .others [] (List.append_nil _).symm rfl nofun
  | enqueued w now u c ji hpc => exact .others [⟨w, ji, c.host⟩] rfl rfl nofun
  | literal w now u c dst hpc | hit w now u c dst hpc =>
      have hsame := udpSend5g_same s u c c.payload dst
      exact .others [] (hsame.queue.trans (List.append_nil _).symm) hsame.resolver nofun
  | held w now u c ji hpc =>
      have hsame := holdFrame_same s u c
      exact .others [] (hsame.queue.trans (List.append_nil _).symm) hsame.resolver nofun
  | flush w now i dst now' hpc =>
      have hsame := (s.udpDnsFlushPending_clears w (s.jobs (w, i)).host dst).same
      exact .others [] (hsame.queue.trans (List.append_nil _).symm) hsame.resolver nofun
  | drop w now i now' hpc =>
      have hsame := (s.udpDnsDropPending_clears w (s.jobs (w, i)).host).same
      exact .others [] (hsame.queue.trans (List.append_nil _).symm) hsame.resolver nofun
  | take r answer q rest hpc hqueue => exact .take r q rest hpc hqueue rfl rfl hturn
  | resolved r q ip hpc | refused r q ip hpc | unresolved r q hpc | write r answer q ip hpc =>
      refine .work r _ ?_ ?_ rfl rfl (Or.inl ?_) hturn
      · rw [hpc]
        rintro ⟨⟩
      · simp [hpc, ResolverPc.rank]
      · rw [hpc]
        rfl
  | publish r answer q ok hpc =>
      refine .work r _ ?_ ?_ rfl rfl (Or.inr ⟨q, by rw [hpc]; rfl, rfl, ?_⟩) hturn
      · rw [hpc]
        rintro ⟨⟩
      · simp [hpc, ResolverPc.rank]
      · cases ok <;> simp [Done, setResolver, setJob]
  | wakeWorker r answer q hpc =>
      exact .wake r q hpc (Function.update_self ..) rfl rfl hturn

theorem resolverStep_isSome {r : Fin udpDnsResolverThreads} {answer : Option (List UInt8)}
    (h : s.resolver r = .wait → s.queue ≠ []) : (s.resolverStep r answer).isSome = true := by
  unfold resolverStep
  cases hpc : s.resolver r with
  | wait =>
      cases hqueue : s.queue with
      | nil => exact absurd hqueue (h hpc)
      | cons q rest => rfl
  | resolve q => cases answer <;> rfl
  | write q ip => rfl
  | publish q ok => rfl
  | wake q => rfl

theorem InHand.ne_free {w : Fin udpWorkerCount} {j : Fin udpDnsJobCount} (h : s.InHand w j) :
    (s.jobs (w, j)).state ≠ .free := by
  intro hfree
  rcases h with ⟨hflight, -⟩ | ⟨hdone | hdone, -⟩
  · exact absurd (hfree.symm.trans hflight) (by rintro ⟨⟩)
  · exact absurd (hfree.symm.trans hdone) (by rintro ⟨⟩)
  · exact absurd (hfree.symm.trans hdone) (by rintro ⟨⟩)

/-- The job whose request its worker has not handed over yet is in nobody's hand. -/
theorem Served.not_inHand (h : Served s) {w : Fin udpWorkerCount} {u : ℕ} {c : RouteCall}
    {j : Fin udpDnsJobCount} (hpc : s.pc w = .enqueue u c j) : ¬s.InHand w j := by
  obtain ⟨owner, hreq⟩ := h.requests
  obtain ⟨hown, hin⟩ := hreq.opened w u c j hpc
  rintro (⟨-, ⟨q, hq, hkey⟩ | ⟨r, q, hq, hkey⟩⟩ | ⟨hdone, -⟩)
  · rw [← hkey, (hreq.queued q hq).1] at hown
    cases hown
  · rw [← hkey, (hreq.resolving r q hq).1] at hown
    cases hown
  · exact hdone.ne_inflight hin.1

/-- What a step does to a job that a held frame waits for: it stays as it is, or is published. -/
theorem Tended.job_move {e : UdpDnsEvent} (h : Tended s) (ht : Transition inetPton s e t)
    {w : Fin udpWorkerCount} {u : ℕ} {k : Fin udpDnsPendSlots} {j : Fin udpDnsJobCount}
    (hu : u ∈ s.connList w) (hused : (s.pend (u, k)).used = true)
    (hhost : (s.jobs (w, j)).host = (s.pend (u, k)).host) (hj : s.InHand w j) :
    t.connList w = [] ∨ (t.jobs (w, j)).host = (s.jobs (w, j)).host ∧
      ((t.jobs (w, j)).state = (s.jobs (w, j)).state ∨
        (s.jobs (w, j)).state = .inflight ∧ t.Done (w, j)) := by
  have hsame : ∀ x : UdpDns, x.jobs = s.jobs → (x.jobs (w, j)).host = (s.jobs (w, j)).host ∧
      ((x.jobs (w, j)).state = (s.jobs (w, j)).state ∨
        (s.jobs (w, j)).state = .inflight ∧ x.Done (w, j)) := by
    intro x hx
    rw [hx]
    exact ⟨rfl, Or.inl rfl⟩
  have hother : ∀ key job, (w, j) ≠ key → ((s.setJob key job).jobs (w, j)).host =
      (s.jobs (w, j)).host ∧ (((s.setJob key job).jobs (w, j)).state = (s.jobs (w, j)).state ∨
        (s.jobs (w, j)).state = .inflight ∧ (s.setJob key job).Done (w, j)) := by
    intro key job hkey
    simp [setJob, hkey]
  cases ht with
  | openSession | closeSession | frame | wake | unrouted | miss | found | jobsFull | enqueued
  | dropped | skip | drained | answer | noAnswer | put | take | resolved | refused | unresolved
  | wakeWorker => exact Or.inr (hsame _ rfl)
  | literal w' now u' c dst | hit w' now u' c dst =>
      exact Or.inr (hsame _ (udpSend5g_same s u' c c.payload dst).jobs)
  | held w' now u' c => exact Or.inr (hsame _ (holdFrame_same s u' c).jobs)
  | flush w' now i dst =>
      exact Or.inr (hsame _ (s.udpDnsFlushPending_clears w' (s.jobs (w', i)).host dst).same.jobs)
  | drop w' now i =>
      exact Or.inr (hsame _ (s.udpDnsDropPending_clears w' (s.jobs (w', i)).host).same.jobs)
  | opened w' now u' c ji hpc hfind halloc =>
      refine Or.inr (hother _ _ ?_)
      rintro ⟨⟩
      exact hj.ne_free (udpDnsJobAlloc_eq_some halloc)
  | rolledBack w' now u' c ji hpc =>
      refine Or.inr (hother _ _ ?_)
      rintro ⟨⟩
      exact h.served.not_inHand hpc hj
  | free w' now i now' hpc =>
      refine Or.inr (hother _ _ ?_)
      rintro ⟨⟩
      exact h.attached.cleared w j now' hpc u hu k hused hhost.symm
  | write r answer q ip hpc =>
      by_cases hkey : (w, j) = q.key
      · simp [setResolver, setJob, hkey]
      · exact Or.inr (hother _ _ hkey)
  | publish r answer q ok hpc =>
      by_cases hkey : (w, j) = q.key
      · obtain ⟨owner, hreq⟩ := h.served.requests
        have hin : s.InFlight q := (hreq.resolving r q (by rw [hpc]; rfl)).2
        refine Or.inr ⟨by simp [setResolver, setJob, hkey], Or.inr ⟨hkey ▸ hin.1, ?_⟩⟩
        cases ok <;> simp [Done, setResolver, setJob, hkey]
      · exact Or.inr (hother _ _ hkey)
  | restart => exact Or.inl rfl

/-- A readable pipe stays readable until its worker begins to drain. -/
theorem woken_move {e : UdpDnsEvent} (ht : Transition inetPton s e t) {w : Fin udpWorkerCount}
    (hwoken : s.woken w = true) :
    t.woken w = true ∧ e ∉ wakeTurns w ∨ t.connList w = [] ∨ ∃ now, t.pc w = .drain 0 now := by
  cases ht with
  | openSession | closeSession | frame | unrouted | miss | found | opened | jobsFull | enqueued
  | rolledBack | dropped | skip | drained | answer | noAnswer | put | free | take | resolved
  | refused | unresolved | write | publish => exact Or.inl ⟨hwoken, nofun⟩
  | literal w' now u c dst | hit w' now u c dst =>
      refine Or.inl ⟨?_, nofun⟩
      exact (congrFun (udpSend5g_same s u c c.payload dst).woken w).trans hwoken
  | held w' now u c =>
      exact Or.inl ⟨(congrFun (holdFrame_same s u c).woken w).trans hwoken, nofun⟩
  | flush w' now i dst =>
      have hsame := (s.udpDnsFlushPending_clears w' (s.jobs (w', i)).host dst).same
      exact Or.inl ⟨(congrFun hsame.woken w).trans hwoken, nofun⟩
  | drop w' now i =>
      have hsame := (s.udpDnsDropPending_clears w' (s.jobs (w', i)).host).same
      exact Or.inl ⟨(congrFun hsame.woken w).trans hwoken, nofun⟩
  | wake w' now =>
      by_cases hw : w = w'
      · subst hw
        exact Or.inr (Or.inr ⟨now, Function.update_self ..⟩)
      · refine Or.inl ⟨(Function.update_of_ne hw _ _).trans hwoken, ?_⟩
        rintro ⟨now', ⟨⟩⟩
        exact hw rfl
  | wakeWorker r answer q =>
      refine Or.inl ⟨?_, nofun⟩
      by_cases hw : w = q.worker
      · simp [setResolver, hw]
      · simpa [setResolver, hw] using hwoken
  | restart => exact Or.inr (Or.inl rfl)

def Holds (w : Fin udpWorkerCount) (u : ℕ) (k : Fin udpDnsPendSlots) (s : UdpDns) : Prop :=
  u ∈ s.connList w ∧ (s.pend (u, k)).used = true

theorem Attached.pend_move {e : UdpDnsEvent} (h : Attached s) (ht : Transition inetPton s e t)
    {w : Fin udpWorkerCount} {u : ℕ} {k : Fin udpDnsPendSlots} (hs : Holds w u k s)
    (hused : (t.pend (u, k)).used = true) : t.pend (u, k) = s.pend (u, k) := by
  cases ht with
  | closeSession | frame | wake | unrouted | miss | found | opened | jobsFull | enqueued
  | rolledBack | dropped | skip | drained | answer | noAnswer | put | free | take | resolved
  | refused | unresolved | write | publish | wakeWorker | restart => rfl
  | openSession w' remoteOpen =>
      have hne : u ≠ s.nSessions := Nat.ne_of_lt (h.listed w u hs.1).1
      simp [UdpDns.link, hne]
  | literal w' now u' c dst | hit w' now u' c dst =>
      rcases udpSend5g_cases s u' c c.payload dst with heq | ⟨-, heq⟩ <;> rw [heq] <;> rfl
  | held w' now u' c =>
      rcases holdFrame_cases s u' c with heq | ⟨k', hfree, heq⟩ <;> rw [heq]
      · rfl
      · refine Function.update_of_ne ?_ _ _
        rintro ⟨⟩
        exact absurd (hs.2.symm.trans hfree) (by rintro ⟨⟩)
  | flush w' now i dst =>
      obtain ⟨sent, pend, heq, hold, -⟩ := s.udpDnsFlushPending_clears w' (s.jobs (w', i)).host dst
      rw [heq] at hused ⊢
      exact hold (u, k) hused
  | drop w' now i =>
      obtain ⟨sent, pend, heq, hold, -⟩ := s.udpDnsDropPending_clears w' (s.jobs (w', i)).host
      rw [heq] at hused ⊢
      exact hold (u, k) hused

/-! ### The way of a held frame -/

section Way

variable (w : Fin udpWorkerCount) (u : ℕ) (k : Fin udpDnsPendSlots) (j : Fin udpDnsJobCount)

def WaitsFor (s : UdpDns) : Prop :=
  Holds w u k s ∧ (s.jobs (w, j)).host = (s.pend (u, k)).host

def Queued (s : UdpDns) : Prop := WaitsFor w u k j s ∧ ∃ q ∈ s.queue, q.key = (w, j)

def Resolving (r : Fin udpDnsResolverThreads) (s : UdpDns) : Prop :=
  WaitsFor w u k j s ∧ ∃ q, (s.resolver r).request = some q ∧ q.key = (w, j)

def Published (r : Fin udpDnsResolverThreads) (s : UdpDns) : Prop :=
  WaitsFor w u k j s ∧ s.Done (w, j) ∧ ∃ q, s.resolver r = .wake q ∧ q.key = (w, j)

def Woken (s : UdpDns) : Prop := WaitsFor w u k j s ∧ s.Done (w, j) ∧ s.woken w = true

def Draining (s : UdpDns) : Prop := WaitsFor w u k j s ∧ s.Done (w, j) ∧ (s.pc w).willVisit j

/-- The place of the request in the queue, and how far the first resolver is from the next one. -/
def queueRank (s : UdpDns) : ℕ :=
  5 * s.queue.findIdx (fun q => q.key = (w, j)) + (s.resolver 0).rank

end Way

variable {w : Fin udpWorkerCount} {u : ℕ} {k : Fin udpDnsPendSlots} {j : Fin udpDnsJobCount}
  {r : Fin udpDnsResolverThreads}

theorem Queued.inHand (h : Served s) (hs : Queued w u k j s) : s.InHand w j := by
  obtain ⟨-, q, hq, hkey⟩ := hs
  obtain ⟨owner, hreq⟩ := h.requests
  exact Or.inl ⟨hkey ▸ (hreq.queued q hq).2.1, Or.inl ⟨q, hq, hkey⟩⟩

theorem Resolving.inHand (h : Served s) (hs : Resolving w u k j r s) : s.InHand w j := by
  obtain ⟨-, q, hq, hkey⟩ := hs
  obtain ⟨owner, hreq⟩ := h.requests
  exact Or.inl ⟨hkey ▸ (hreq.resolving r q hq).2.1, Or.inr ⟨r, q, hq, hkey⟩⟩

theorem Published.inHand (hs : Published w u k j r s) : s.InHand w j :=
  Or.inr ⟨hs.2.1, Or.inr (Or.inl ⟨r, hs.2.2⟩)⟩

theorem Woken.inHand (hs : Woken w u k j s) : s.InHand w j := Or.inr ⟨hs.2.1, Or.inl hs.2.2⟩

theorem Draining.inHand (hs : Draining w u k j s) : s.InHand w j :=
  Or.inr ⟨hs.2.1, Or.inr (Or.inr hs.2.2)⟩

/-- As long as the frame is held it waits for the same job, which does not become undone. -/
theorem Tended.waits_move {e : UdpDnsEvent} (h : Tended s) (ht : Transition inetPton s e t)
    (hs : WaitsFor w u k j s) (hj : s.InHand w j) :
    ¬Holds w u k t ∨ WaitsFor w u k j t ∧ (s.Done (w, j) → t.Done (w, j)) := by
  by_cases hheld : Holds w u k t
  · have hpend := h.attached.pend_move ht hs.1 hheld.2
    rcases h.job_move ht hs.1.1 hs.1.2 hs.2 hj with hnil | ⟨hhost, hstate⟩
    · exact absurd hheld.1 (by rw [hnil]; exact List.not_mem_nil)
    · refine Or.inr ⟨⟨hheld, ?_⟩, fun hdone => ?_⟩
      · rw [hhost, hpend]
        exact hs.2
      · rcases hstate with hsame | ⟨-, hdone'⟩
        · rw [Done, hsame]
          exact hdone
        · exact hdone'
  · exact Or.inl hheld

/-! ### Every stage is left -/

theorem resolverTurns_enabled (h : s.resolver r = .wait → s.queue ≠ []) :
    Enabled (UdpDns.step inetPton) (resolverTurns r) s :=
  ⟨.resolver r none, ⟨none, rfl⟩, (resolverStep_isSome h : (s.resolverStep r none).isSome = true)⟩

theorem workerTurns_enabled (h : s.pc w ≠ .idle) :
    Enabled (UdpDns.step inetPton) (workerTurns w) s :=
  ⟨.worker w 0, ⟨0, rfl⟩, workerStep_isSome h⟩

theorem queueRank_lower {e : UdpDnsEvent} {pc : ResolverPc} (hqueue : t.queue = s.queue)
    (hres : t.resolver = Function.update s.resolver r pc) (hrank : pc.rank < (s.resolver r).rank)
    (he : ∀ r', e ∈ resolverTurns r' → r' = r) :
    queueRank w j t ≤ queueRank w j s ∧
      (e ∈ resolverTurns 0 → queueRank w j t < queueRank w j s) := by
  rw [queueRank, queueRank, hqueue, hres]
  by_cases hr : 0 = r
  · subst hr
    rw [Function.update_self]
    exact ⟨Nat.add_le_add_left (Nat.le_of_lt hrank) _, fun _ => Nat.add_lt_add_left hrank _⟩
  · rw [Function.update_of_ne hr]
    exact ⟨Nat.le_refl _, fun h0 => absurd (he 0 h0) hr⟩

/-- A step of the queue either brings the request of the job nearer to its head, or hands it to a
resolver. -/
theorem Queued.move {e : UdpDnsEvent} (h : Tended s) (ht : Transition inetPton s e t)
    (hs : Queued w u k j s) :
    (¬Holds w u k t ∨ ∃ r, Resolving w u k j r t) ∨ Queued w u k j t ∧
      queueRank w j t ≤ queueRank w j s ∧ (e ∈ resolverTurns 0 → queueRank w j t < queueRank w j s) := by
  rcases h.waits_move ht hs.1 (hs.inHand h.served) with hgone | ⟨hwaits, -⟩
  · exact Or.inl (Or.inl hgone)
  obtain ⟨-, q, hq, hkey⟩ := hs
  cases resolver_move ht with
  | others added hqueue hres he =>
      refine Or.inr ⟨⟨hwaits, q, by rw [hqueue]; exact List.mem_append_left _ hq, hkey⟩, ?_,
        fun h0 => absurd h0 (he 0)⟩
      have hlt : s.queue.findIdx (fun q => q.key = (w, j)) < s.queue.length :=
        List.findIdx_lt_length_of_exists ⟨q, hq, by simpa using hkey⟩
      rw [queueRank, queueRank, hqueue, hres, List.findIdx_append, if_pos hlt]
  | take r q' rest hwait hqueue hrest hres he =>
      by_cases hkey' : q'.key = (w, j)
      · refine Or.inl (Or.inr ⟨r, hwaits, q', ?_, hkey'⟩)
        rw [hres, Function.update_self]
        rfl
      · rw [hqueue] at hq
        have hq' : q ∈ rest := by
          refine (List.mem_cons.mp hq).resolve_left ?_
          rintro rfl
          exact hkey' hkey
        have hlt : queueRank w j t < queueRank w j s := by
          have hrank : (t.resolver 0).rank ≤ (s.resolver 0).rank + 4 := by
            rw [hres]
            by_cases hr : 0 = r
            · subst hr
              simp [ResolverPc.rank]
            · rw [Function.update_of_ne hr]
              exact Nat.le_add_right _ _
          rw [queueRank, queueRank, hqueue, hrest, List.findIdx_cons]
          simp only [hkey', decide_false, cond_false]
          omega
        exact Or.inr ⟨⟨hwaits, q, by rw [hrest]; exact hq', hkey⟩, Nat.le_of_lt hlt, fun _ => hlt⟩
  | work r pc hreq hrank hqueue hres _ he =>
      exact Or.inr ⟨⟨hwaits, q, by rw [hqueue]; exact hq, hkey⟩, queueRank_lower hqueue hres hrank he⟩
  | wake r q' hwake hwoken hqueue hres he =>
      have hrank : ResolverPc.wait.rank < (s.resolver r).rank := by
        rw [hwake]
        exact Nat.one_pos
      exact Or.inr ⟨⟨hwaits, q, by rw [hqueue]; exact hq, hkey⟩, queueRank_lower hqueue hres hrank he⟩

variable {b : Behaviour (UdpDns.step inetPton)}

theorem queued_leadsTo (hinv : ∀ n, Tended (b.state n)) (hfair : b.WeakFair (resolverTurns 0)) :
    b.LeadsTo (Queued w u k j) fun s => ¬Holds w u k s ∨ ∃ r, Resolving w u k j r s := by
  refine hfair.leadsTo (queueRank w j) hinv (fun s _ hs => ?_) (fun s a t h hs hst => ?_)
    fun s a t h hs ha hst => ?_
  · refine resolverTurns_enabled fun _ hnil => ?_
    obtain ⟨-, q, hq, -⟩ := hs
    rw [hnil] at hq
    exact absurd hq List.not_mem_nil
  · exact (hs.move h (transition_of_step hst)).imp_right fun ⟨ht, hle, _⟩ => ⟨ht, hle⟩
  · exact (hs.move h (transition_of_step hst)).imp_right fun ⟨_, _, hlt⟩ => hlt ha

theorem Resolving.move {e : UdpDnsEvent} (h : Tended s) (ht : Transition inetPton s e t)
    (hs : Resolving w u k j r s) :
    (¬Holds w u k t ∨ Published w u k j r t) ∨ Resolving w u k j r t ∧
      (t.resolver r).rank ≤ (s.resolver r).rank ∧
      (e ∈ resolverTurns r → (t.resolver r).rank < (s.resolver r).rank) := by
  rcases h.waits_move ht hs.1 (hs.inHand h.served) with hgone | ⟨hwaits, -⟩
  · exact Or.inl (Or.inl hgone)
  obtain ⟨-, q, hq, hkey⟩ := hs
  have hsame : t.resolver r = s.resolver r → e ∉ resolverTurns r →
      Resolving w u k j r t ∧ (t.resolver r).rank ≤ (s.resolver r).rank ∧
        (e ∈ resolverTurns r → (t.resolver r).rank < (s.resolver r).rank) := by
    intro heq he
    exact ⟨⟨hwaits, q, by rw [heq]; exact hq, hkey⟩, by rw [heq], fun h0 => absurd h0 he⟩
  have hother : ∀ r' pc, t.resolver = Function.update s.resolver r' pc →
      (∀ r'', e ∈ resolverTurns r'' → r'' = r') → r ≠ r' →
      Resolving w u k j r t ∧ (t.resolver r).rank ≤ (s.resolver r).rank ∧
        (e ∈ resolverTurns r → (t.resolver r).rank < (s.resolver r).rank) := by
    intro r' pc hres he hr
    exact hsame (by rw [hres, Function.update_of_ne hr]) fun h0 => hr (he r h0)
  cases resolver_move ht with
  | others added hqueue hres he => exact Or.inr (hsame (by rw [hres]) (he r))
  | take r' q' rest hwait hqueue hrest hres he =>
      refine Or.inr (hother r' _ hres he ?_)
      rintro rfl
      rw [hwait] at hq
      cases hq
  | wake r' q' hwake hwoken hqueue hres he =>
      refine Or.inr (hother r' _ hres he ?_)
      rintro rfl
      rw [hwake] at hq
      cases hq
  | work r' pc hreq hrank hqueue hres hpc he =>
      by_cases hr : r = r'
      · subst hr
        have hnow : t.resolver r = pc := by rw [hres, Function.update_self]
        rcases hpc with hpc | ⟨q', hq', hwake, hdone⟩
        · refine Or.inr ⟨⟨hwaits, q, by rw [hnow, hpc]; exact hq, hkey⟩, ?_, fun _ => ?_⟩
          · rw [hnow]
            exact Nat.le_of_lt hrank
          · rw [hnow]
            exact hrank
        · have heq : q' = q := Option.some.inj (hq'.symm.trans hq)
          subst heq
          exact Or.inl (Or.inr ⟨hwaits, hkey ▸ hdone, q', hnow.trans hwake, hkey⟩)
      · exact Or.inr (hother r' _ hres he hr)

theorem resolving_leadsTo (hinv : ∀ n, Tended (b.state n)) (hfair : b.WeakFair (resolverTurns r)) :
    b.LeadsTo (Resolving w u k j r) fun s => ¬Holds w u k s ∨ Published w u k j r s := by
  refine hfair.leadsTo (fun s => (s.resolver r).rank) hinv (fun s _ hs => ?_)
    (fun s a t h hs hst => ?_) fun s a t h hs ha hst => ?_
  · refine resolverTurns_enabled fun hwait => ?_
    obtain ⟨-, q, hq, -⟩ := hs
    rw [hwait] at hq
    cases hq
  · exact (hs.move h (transition_of_step hst)).imp_right fun ⟨ht, hle, _⟩ => ⟨ht, hle⟩
  · exact (hs.move h (transition_of_step hst)).imp_right fun ⟨_, _, hlt⟩ => hlt ha

theorem Published.move {e : UdpDnsEvent} (h : Tended s) (ht : Transition inetPton s e t)
    (hs : Published w u k j r s) :
    (¬Holds w u k t ∨ Woken w u k j t) ∨ Published w u k j r t ∧ e ∉ resolverTurns r := by
  rcases h.waits_move ht hs.1 hs.inHand with hgone | ⟨hwaits, hdone⟩
  · exact Or.inl (Or.inl hgone)
  obtain ⟨-, hdone₀, q, hq, hkey⟩ := hs
  have hsame : t.resolver r = s.resolver r → e ∉ resolverTurns r →
      Published w u k j r t ∧ e ∉ resolverTurns r :=
    fun heq he => ⟨⟨hwaits, hdone hdone₀, q, by rw [heq]; exact hq, hkey⟩, he⟩
  have hother : ∀ r' pc, t.resolver = Function.update s.resolver r' pc →
      (∀ r'', e ∈ resolverTurns r'' → r'' = r') → r ≠ r' →
      Published w u k j r t ∧ e ∉ resolverTurns r := by
    intro r' pc hres he hr
    exact hsame (by rw [hres, Function.update_of_ne hr]) fun h0 => hr (he r h0)
  cases resolver_move ht with
  | others added hqueue hres he => exact Or.inr (hsame (by rw [hres]) (he r))
  | take r' q' rest hwait hqueue hrest hres he =>
      refine Or.inr (hother r' _ hres he ?_)
      rintro rfl
      rw [hwait] at hq
      cases hq
  | work r' pc hreq hrank hqueue hres hpc he =>
      refine Or.inr (hother r' _ hres he ?_)
      rintro rfl
      rw [hq] at hreq
      exact hreq rfl
  | wake r' q' hwake hwoken hqueue hres he =>
      by_cases hr : r = r'
      · subst hr
        rw [hq] at hwake
        cases hwake
        have hw : q.worker = w := congrArg Prod.fst hkey
        exact Or.inl (Or.inr ⟨hwaits, hdone hdone₀, hw ▸ hwoken⟩)
      · exact Or.inr (hother r' _ hres he hr)

theorem published_leadsTo (hinv : ∀ n, Tended (b.state n)) (hfair : b.WeakFair (resolverTurns r)) :
    b.LeadsTo (Published w u k j r) fun s => ¬Holds w u k s ∨ Woken w u k j s := by
  refine hfair.leadsTo (fun _ => 0) hinv (fun s _ hs => ?_) (fun s a t h hs hst => ?_)
    fun s a t h hs ha hst => ?_
  · refine resolverTurns_enabled fun hwait => ?_
    obtain ⟨-, -, q, hq, -⟩ := hs
    rw [hwait] at hq
    cases hq
  · exact (hs.move h (transition_of_step hst)).imp_right fun ⟨ht, _⟩ => ⟨ht, Nat.le_refl 0⟩
  · exact (hs.move h (transition_of_step hst)).imp_right fun ⟨_, hnot⟩ => absurd ha hnot

theorem Woken.move {e : UdpDnsEvent} (h : Tended s) (ht : Transition inetPton s e t)
    (hs : Woken w u k j s) :
    (¬Holds w u k t ∨ Draining w u k j t) ∨ Woken w u k j t ∧ e ∉ wakeTurns w := by
  rcases h.waits_move ht hs.1 hs.inHand with hgone | ⟨hwaits, hdone⟩
  · exact Or.inl (Or.inl hgone)
  obtain ⟨-, hdone₀, hwoken⟩ := hs
  rcases woken_move ht hwoken with ⟨hwoken', he⟩ | hnil | ⟨now, hpc⟩
  · exact Or.inr ⟨⟨hwaits, hdone hdone₀, hwoken'⟩, he⟩
  · refine Or.inl (Or.inl fun hheld => ?_)
    rw [Holds, hnil] at hheld
    exact absurd hheld.1 List.not_mem_nil
  · refine Or.inl (Or.inr ⟨hwaits, hdone hdone₀, ?_⟩)
    rw [hpc]
    exact Nat.zero_le _

/-- While the pipe of a worker is readable, the worker comes back to its loop. -/
theorem woken_leadsTo_idle (hinv : ∀ n, Tended (b.state n)) (hfair : b.WeakFair (workerTurns w)) :
    b.LeadsTo (Woken w u k j) fun s =>
      (¬Holds w u k s ∨ Draining w u k j s) ∨ Enabled (UdpDns.step inetPton) (wakeTurns w) s := by
  have hidle : ∀ s, Woken w u k j s → s.pc w = .idle →
      Enabled (UdpDns.step inetPton) (wakeTurns w) s := by
    intro s hs hpc
    refine ⟨.wake w 0, ⟨0, rfl⟩, ?_⟩
    simp [UdpDns.step, hpc, hs.2.2, UdpWorkerPc.isIdle]
  have hbusy : b.LeadsTo (fun s => Woken w u k j s ∧ s.pc w ≠ .idle) fun s =>
      (¬Holds w u k s ∨ Draining w u k j s) ∨ Enabled (UdpDns.step inetPton) (wakeTurns w) s := by
    refine hfair.leadsTo (fun s => (s.pc w).rank) hinv (fun s _ hs => workerTurns_enabled hs.2)
      (fun s a t h hs hst => ?_) fun s a t h hs ha hst => ?_
    · have ht := transition_of_step hst
      rcases hs.1.move h ht with hgone | ⟨hwoken, -⟩
      · exact Or.inl (Or.inl hgone)
      · by_cases hpc : t.pc w = .idle
        · exact Or.inl (Or.inr (hidle t hwoken hpc))
        · refine Or.inr ⟨⟨hwoken, hpc⟩, ?_⟩
          rcases worker_move ht w with ⟨hsame, -⟩ | ⟨hpc₀, -⟩ | ⟨hlt, -⟩
          · rw [hsame]
          · exact absurd hpc₀ hs.2
          · exact Nat.le_of_lt hlt
    · rcases worker_move (transition_of_step hst) w with ⟨-, hnot⟩ | ⟨-, hnot⟩ | ⟨hlt, -⟩
      · exact absurd ha hnot
      · exact absurd ha hnot
      · exact Or.inr hlt
  intro n hn
  by_cases hpc : (b.state n).pc w = .idle
  · exact ⟨n, Nat.le_refl n, Or.inr (hidle _ hn hpc)⟩
  · exact hbusy n ⟨hn, hpc⟩

theorem woken_leadsTo (hinv : ∀ n, Tended (b.state n)) (hfair : b.WeakFair (workerTurns w))
    (hwake : b.StrongFair (wakeTurns w)) :
    b.LeadsTo (Woken w u k j) fun s => ¬Holds w u k s ∨ Draining w u k j s := by
  refine hwake.leadsTo hinv (woken_leadsTo_idle hinv hfair) (fun s a t h hs hst => ?_)
    fun s a t h hs ha hst => ?_
  · exact (hs.move h (transition_of_step hst)).imp_right And.left
  · exact (hs.move h (transition_of_step hst)).resolve_right fun ⟨_, hnot⟩ => hnot ha

theorem Draining.move {e : UdpDnsEvent} (h : Tended s) (ht : Transition inetPton s e t)
    (htended : Tended t) (hs : Draining w u k j s) :
    ¬Holds w u k t ∨ Draining w u k j t ∧ (t.pc w).rank ≤ (s.pc w).rank ∧
      (e ∈ workerTurns w → (t.pc w).rank < (s.pc w).rank) := by
  rcases h.waits_move ht hs.1 hs.inHand with hgone | ⟨hwaits, hdone⟩
  · exact Or.inl hgone
  obtain ⟨-, hdone₀, hvisit⟩ := hs
  rcases worker_move ht w with ⟨hsame, hnot⟩ | ⟨hidle, -⟩ | ⟨hlt, hpass⟩
  · refine Or.inr ⟨⟨hwaits, hdone hdone₀, by rw [hsame]; exact hvisit⟩, ?_, fun he => absurd he hnot⟩
    rw [hsame]
  · rw [hidle] at hvisit
    exact hvisit.elim
  · rcases hpass j hdone₀ hvisit with hvisit' | ⟨now, hfree⟩
    · exact Or.inr ⟨⟨hwaits, hdone hdone₀, hvisit'⟩, Nat.le_of_lt hlt, fun _ => hlt⟩
    · refine Or.inl fun hheld => ?_
      exact htended.attached.cleared w j now hfree u hheld.1 k hheld.2 hwaits.2.symm

theorem draining_leadsTo (hinv : ∀ n, Tended (b.state n)) (hfair : b.WeakFair (workerTurns w)) :
    b.LeadsTo (Draining w u k j) fun s => ¬Holds w u k s := by
  refine hfair.leadsTo (fun s => (s.pc w).rank) hinv (fun s _ hs => workerTurns_enabled ?_)
    (fun s a t h hs hst => ?_) fun s a t h hs ha hst => ?_
  · intro hidle
    have hvisit := hs.2.2
    rw [hidle] at hvisit
    exact hvisit
  · exact (hs.move h (transition_of_step hst) (h.step hst)).imp_right fun ⟨ht, hle, _⟩ => ⟨ht, hle⟩
  · exact (hs.move h (transition_of_step hst) (h.step hst)).imp_right fun ⟨_, _, hlt⟩ => hlt ha

/-! ### Every held frame is released -/

/-- The threads that a held frame of a worker needs get their turns. -/
structure FairTo (b : Behaviour (UdpDns.step inetPton)) (w : Fin udpWorkerCount) : Prop where
  resolver : ∀ r, b.WeakFair (resolverTurns r)
  worker : b.WeakFair (workerTurns w)
  wake : b.StrongFair (wakeTurns w)

theorem held_leadsTo (hinv : ∀ n, Tended (b.state n)) (hfair : FairTo b w) :
    b.LeadsTo (Holds w u k) fun s => ¬Holds w u k s := by
  intro n hheld
  obtain ⟨j, hhost, hj⟩ := (hinv n).inHand hheld.1 hheld.2
  have hwaits : WaitsFor w u k j (b.state n) := ⟨hheld, hhost⟩
  have hdraining := draining_leadsTo (w := w) (u := u) (k := k) (j := j) hinv hfair.worker
  have hwoken := (woken_leadsTo hinv hfair.worker hfair.wake).trans_or hdraining
  have hpublished := fun r => (published_leadsTo hinv (hfair.resolver r)).trans_or hwoken
  have hresolving := fun r => (resolving_leadsTo hinv (hfair.resolver r)).trans_or (hpublished r)
  rcases hj with ⟨-, ⟨q, hq, hkey⟩ | ⟨r, hr⟩⟩ | ⟨hdone, hpipe | ⟨r, hr⟩ | hvisit⟩
  · have hany : b.LeadsTo (fun s => ∃ r, Resolving w u k j r s) fun s => ¬Holds w u k s :=
      fun n ⟨r, hr⟩ => hresolving r n hr
    exact ((queued_leadsTo hinv (hfair.resolver 0)).trans_or hany) n ⟨hwaits, q, hq, hkey⟩
  · exact hresolving r n ⟨hwaits, hr⟩
  · exact hwoken n ⟨hwaits, hdone, hpipe⟩
  · exact hpublished r n ⟨hwaits, hdone, hr⟩
  · exact hdraining n ⟨hwaits, hdone, hvisit⟩

/-- The worker is at the loop that sends or drops the held frames for the name. -/
def Releases (s : UdpDns) (w : Fin udpWorkerCount) (host : Host) : Prop :=
  ∃ i, (s.jobs (w, i)).host = host ∧
    ((∃ dst now, s.pc w = .flush i dst now) ∨ ∃ now, s.pc w = .drop i now)

/-- A frame is let go with its session, or by the loop for its name. -/
theorem Attached.release_move {e : UdpDnsEvent} (h : Attached s) (ht : Transition inetPton s e t)
    (hs : Holds w u k s) (hgone : ¬Holds w u k t) :
    u ∉ t.connList w ∨ (t.pend (u, k)).used = false ∧ s.Releases w (s.pend (u, k)).host := by
  have hkeep : ∀ x : UdpDns, x.connList = s.connList → x.pend = s.pend → Holds w u k x := by
    intro x hlist hpend
    rw [Holds, hlist, hpend]
    exact hs
  have hloop : ∀ {x : UdpDns} {w' : Fin udpWorkerCount} {host : Host} {dst : Option SockAddr}
      {pc : UdpWorkerPc}, s.Clears x w' host dst → ¬Holds w u k (x.setPc w' pc) →
      ((x.setPc w' pc).pend (u, k)).used = false ∧ w' = w ∧ host = (s.pend (u, k)).host := by
    rintro x w' host dst pc ⟨sent, pend, rfl, -, hother, -⟩ hnot
    have hunused : ¬(pend (u, k)).used = true := fun hused => hnot ⟨hs.1, hused⟩
    have hmatch : u ∈ s.connList w' ∧ (s.pend (u, k)).host = host := by
      by_contra hno
      rw [not_and_or] at hno
      exact hunused ((hother (u, k) hno).symm ▸ hs.2)
    refine ⟨by simpa [setPc] using hunused, ?_, hmatch.2.symm⟩
    rw [← (h.listed w' u hmatch.1).2.1, (h.listed w u hs.1).2.1]
  cases ht with
  | frame | wake | unrouted | miss | found | opened | jobsFull | enqueued | rolledBack | dropped
  | skip | drained | answer | noAnswer | put | free | take | resolved | refused | unresolved
  | write | publish | wakeWorker => exact absurd (hkeep _ rfl rfl) hgone
  | openSession w' remoteOpen =>
      have hne : u ≠ s.nSessions := Nat.ne_of_lt (h.listed w u hs.1).1
      refine absurd ⟨?_, ?_⟩ hgone
      · by_cases hw : w = w'
        · subst hw
          simp [UdpDns.link, hs.1]
        · simp [UdpDns.link, hw, hs.1]
      · simpa [UdpDns.link, hne] using hs.2
  | closeSession w' u' => exact Or.inl fun hu => hgone ⟨hu, hs.2⟩
  | restart => exact Or.inl List.not_mem_nil
  | literal w' now u' c dst | hit w' now u' c dst =>
      rcases udpSend5g_cases s u' c c.payload dst with heq | ⟨-, heq⟩ <;> rw [heq] at hgone
      · exact absurd (hkeep _ rfl rfl) hgone
      · exact absurd (hkeep _ rfl rfl) hgone
  | held w' now u' c =>
      rcases holdFrame_cases s u' c with heq | ⟨k', hfree, heq⟩ <;> rw [heq] at hgone
      · exact absurd (hkeep _ rfl rfl) hgone
      · refine absurd ⟨hs.1, ?_⟩ hgone
        have hne : (u, k) ≠ (u', k') := by
          rintro ⟨⟩
          exact absurd (hs.2.symm.trans hfree) (by rintro ⟨⟩)
        simpa [setPc, hne] using hs.2
  | flush w' now i dst now' hpc =>
      obtain ⟨hused, rfl, hhost⟩ := hloop (s.udpDnsFlushPending_clears w' _ dst) hgone
      exact Or.inr ⟨hused, i, hhost, Or.inl ⟨dst, now', hpc⟩⟩
  | drop w' now i now' hpc =>
      obtain ⟨hused, rfl, hhost⟩ := hloop (s.udpDnsDropPending_clears w' _) hgone
      exact Or.inr ⟨hused, i, hhost, Or.inr ⟨now', hpc⟩⟩

theorem held_released (hinv : ∀ n, Tended (b.state n)) (hfair : FairTo b w) {n : ℕ}
    (hheld : Holds w u k (b.state n)) :
    ∃ m, n ≤ m ∧ (b.state m).pend (u, k) = (b.state n).pend (u, k) ∧
      (u ∉ (b.state (m + 1)).connList w ∨ ((b.state (m + 1)).pend (u, k)).used = false ∧
        (b.state m).Releases w ((b.state n).pend (u, k)).host) := by
  by_contra hnever
  have hkept : ∀ m, n ≤ m →
      Holds w u k (b.state m) ∧ (b.state m).pend (u, k) = (b.state n).pend (u, k) := by
    intro m hm
    induction m, hm using Nat.le_induction with
    | base => exact ⟨hheld, rfl⟩
    | succ m hm ih =>
        rcases b.succ_cases m with ⟨-, heq⟩ | ⟨e, -, hst⟩
        · rw [heq]
          exact ih
        · have ht := transition_of_step hst
          have hnext : Holds w u k (b.state (m + 1)) := by
            by_contra hgone
            refine hnever ⟨m, hm, ih.2, ?_⟩
            rw [← ih.2]
            exact (hinv m).attached.release_move ht ih.1 hgone
          exact ⟨hnext, ((hinv m).attached.pend_move ht ih.1 hnext.2).trans ih.2⟩
  obtain ⟨m, hm, hgone⟩ := held_leadsTo hinv hfair n hheld
  exact hgone (hkept m hm).1

/-! ### A session that gets no more frames -/

def Unserved (u : ℕ) (s : UdpDns) : Prop :=
  u < s.nSessions ∧ ∀ w, (s.pc w).serves ≠ some u

/-- A worker begins with a frame of a session only when the frame arrives. -/
theorem Unserved.move {e : UdpDnsEvent} (ht : Transition inetPton s e t)
    (he : ∀ w body, e ≠ .frame w u body) (hs : Unserved u s) : Unserved u t := by
  have hupdate : ∀ w' pc, pc.serves ≠ some u → ∀ w,
      (Function.update s.pc w' pc w).serves ≠ some u := by
    intro w' pc hpc w
    by_cases hw : w = w'
    · subst hw
      rw [Function.update_self]
      exact hpc
    · rw [Function.update_of_ne hw]
      exact hs.2 w
  have hother : ∀ w' u' old, s.pc w' = old → old.serves = some u' → u' ≠ u := by
    rintro w' _ _ hpc hserves rfl
    exact hs.2 w' (hpc ▸ hserves)
  cases ht with
  | openSession => exact ⟨Nat.lt_succ_of_lt hs.1, hs.2⟩
  | closeSession | take | resolved | refused | unresolved | write | publish | wakeWorker
  | restart => exact hs
  | frame w' u' body c =>
      refine ⟨hs.1, hupdate w' _ ?_⟩
      rintro ⟨⟩
      exact he w' body rfl
  | wake w' | unrouted w' | dropped w' | skip w' | drained w' | answer w' | noAnswer w' | put w'
  | free w' => exact ⟨hs.1, hupdate w' _ (by rintro ⟨⟩)⟩
  | miss w' now u' c hpc | found w' now u' c ji hpc | opened w' now u' c ji hpc
  | jobsFull w' now u' c hpc | enqueued w' now u' c ji hpc | rolledBack w' now u' c ji hpc =>
      refine ⟨hs.1, hupdate w' _ ?_⟩
      exact fun heq => hother w' u' _ hpc rfl (Option.some.inj heq)
  | literal w' now u' c dst | hit w' now u' c dst =>
      rcases udpSend5g_cases s u' c c.payload dst with heq | ⟨-, heq⟩ <;> rw [heq]
      · exact ⟨hs.1, hupdate w' _ (by rintro ⟨⟩)⟩
      · exact ⟨hs.1, hupdate w' _ (by rintro ⟨⟩)⟩
  | held w' now u' c =>
      rcases holdFrame_cases s u' c with heq | ⟨k', -, heq⟩ <;> rw [heq]
      · exact ⟨hs.1, hupdate w' _ (by rintro ⟨⟩)⟩
      · exact ⟨hs.1, hupdate w' _ (by rintro ⟨⟩)⟩
  | flush w' now i dst =>
      obtain ⟨sent, pend, heq, -⟩ := s.udpDnsFlushPending_clears w' (s.jobs (w', i)).host dst
      rw [heq]
      exact ⟨hs.1, hupdate w' _ (by rintro ⟨⟩)⟩
  | drop w' now i =>
      obtain ⟨sent, pend, heq, -⟩ := s.udpDnsDropPending_clears w' (s.jobs (w', i)).host
      rw [heq]
      exact ⟨hs.1, hupdate w' _ (by rintro ⟨⟩)⟩

theorem Unserved.not_holds_move {e : UdpDnsEvent} (ht : Transition inetPton s e t)
    (hs : Unserved u s) (hnot : ¬Holds w u k s) : ¬Holds w u k t := by
  have hkeep : ∀ x : UdpDns, x.connList = s.connList →
      ((x.pend (u, k)).used = true → (s.pend (u, k)).used = true) → ¬Holds w u k x := by
    intro x hlist hpend hheld
    rw [Holds, hlist] at hheld
    exact hnot (hheld.imp_right hpend)
  cases ht with
  | frame | wake | unrouted | miss | found | opened | jobsFull | enqueued | rolledBack | dropped
  | skip | drained | answer | noAnswer | put | free | take | resolved | refused | unresolved
  | write | publish | wakeWorker => exact hkeep _ rfl id
  | openSession w' remoteOpen =>
      have hne : u ≠ s.nSessions := Nat.ne_of_lt hs.1
      rintro ⟨hmem, hused⟩
      refine hnot ⟨?_, by simpa [UdpDns.link, hne] using hused⟩
      by_cases hw : w = w'
      · subst hw
        simpa [UdpDns.link, hne] using hmem
      · simpa [UdpDns.link, hw] using hmem
  | closeSession w' u' =>
      rintro ⟨hmem, hused⟩
      refine hnot ⟨?_, hused⟩
      by_cases hw : w = w'
      · subst hw
        simp only [UdpDns.unlink, Function.update_self] at hmem
        exact List.mem_of_mem_erase hmem
      · simpa only [UdpDns.unlink, Function.update_of_ne hw] using hmem
  | restart => exact fun hheld => absurd hheld.1 List.not_mem_nil
  | literal w' now u' c dst | hit w' now u' c dst =>
      rcases udpSend5g_cases s u' c c.payload dst with heq | ⟨-, heq⟩ <;> rw [heq]
      · exact hkeep _ rfl id
      · exact hkeep _ rfl id
  | held w' now u' c ji hpc =>
      rcases holdFrame_cases s u' c with heq | ⟨k', -, heq⟩ <;> rw [heq]
      · exact hkeep _ rfl id
      · refine hkeep _ rfl fun hused => ?_
        have hne : (u, k) ≠ (u', k') := by
          rintro ⟨⟩
          exact hs.2 w' (by rw [hpc]; rfl)
        simpa [setPc, hne] using hused
  | flush w' now i dst =>
      obtain ⟨sent, pend, heq, hold, -⟩ := s.udpDnsFlushPending_clears w' (s.jobs (w', i)).host dst
      rw [heq]
      exact hkeep _ rfl fun hused => hold (u, k) hused ▸ hused
  | drop w' now i =>
      obtain ⟨sent, pend, heq, hold, -⟩ := s.udpDnsDropPending_clears w' (s.jobs (w', i)).host
      rw [heq]
      exact hkeep _ rfl fun hused => hold (u, k) hused ▸ hused

theorem idle_leadsTo (hfair : b.WeakFair (workerTurns w)) :
    b.LeadsTo (fun _ => True) fun s => s.pc w = .idle := by
  intro n _
  by_cases hpc : (b.state n).pc w = .idle
  · exact ⟨n, Nat.le_refl n, hpc⟩
  · have hbusy : b.LeadsTo (fun s => s.pc w ≠ .idle) fun s => s.pc w = .idle := by
      refine hfair.leadsTo (I := fun _ => True) (fun s => (s.pc w).rank) (fun _ => trivial)
        (fun s _ hs => workerTurns_enabled hs) (fun s a t _ hs hst => ?_) fun s a t _ _ ha hst => ?_
      · by_cases hpc : t.pc w = .idle
        · exact Or.inl hpc
        · refine Or.inr ⟨hpc, ?_⟩
          rcases worker_move (transition_of_step hst) w with ⟨hsame, -⟩ | ⟨hpc₀, -⟩ | ⟨hlt, -⟩
          · rw [hsame]
          · exact absurd hpc₀ hs
          · exact Nat.le_of_lt hlt
      · rcases worker_move (transition_of_step hst) w with ⟨-, hnot⟩ | ⟨-, hnot⟩ | ⟨hlt, -⟩
        · exact absurd ha hnot
        · exact absurd ha hnot
        · exact Or.inr hlt
    exact hbusy n hpc

theorem widx_move {e : UdpDnsEvent} (ht : Transition inetPton s e t) (hu : u < s.nSessions) :
    u < t.nSessions ∧ (t.session u).widx = (s.session u).widx := by
  cases ht with
  | frame | wake | unrouted | miss | found | opened | jobsFull | enqueued | rolledBack | dropped
  | skip | drained | answer | noAnswer | put | free | take | resolved | refused | unresolved
  | write | publish | wakeWorker | restart => exact ⟨hu, rfl⟩
  | openSession =>
      refine ⟨Nat.lt_succ_of_lt hu, ?_⟩
      simp [UdpDns.link, Nat.ne_of_lt hu]
  | closeSession w' u' =>
      refine ⟨hu, ?_⟩
      by_cases heq : u = u'
      · subst heq
        simp [UdpDns.unlink]
      · simp [UdpDns.unlink, heq]
  | literal w' now u' c dst | hit w' now u' c dst =>
      rcases udpSend5g_cases s u' c c.payload dst with heq | ⟨-, heq⟩ <;> rw [heq] <;>
        exact ⟨hu, rfl⟩
  | held w' now u' c =>
      rcases holdFrame_cases s u' c with heq | ⟨k', -, heq⟩ <;> rw [heq] <;> exact ⟨hu, rfl⟩
  | flush w' now i dst =>
      obtain ⟨sent, pend, heq, -⟩ := s.udpDnsFlushPending_clears w' (s.jobs (w', i)).host dst
      rw [heq]
      exact ⟨hu, rfl⟩
  | drop w' now i =>
      obtain ⟨sent, pend, heq, -⟩ := s.udpDnsDropPending_clears w' (s.jobs (w', i)).host
      rw [heq]
      exact ⟨hu, rfl⟩

/-- The worker of a session that gets no more frames finishes the last one. -/
theorem unserved_eventually (hinv : ∀ n, Tended (b.state n)) (hfair : b.WeakFair (workerTurns w))
    {n : ℕ} (hu : u ∈ (b.state n).connList w) :
    ∃ m, n ≤ m ∧ Unserved u (b.state m) := by
  obtain ⟨m, hm, hidle⟩ := idle_leadsTo hfair n trivial
  obtain ⟨hlt, hwidx, -⟩ := (hinv n).attached.listed w u hu
  have hsession : u < (b.state m).nSessions ∧ ((b.state m).session u).widx = w := by
    refine Behaviour.always_from (P := fun s : UdpDns => u < s.nSessions ∧ (s.session u).widx = w)
      ⟨hlt, hwidx⟩ (fun l _ a _ hl hst => ?_) m hm
    obtain ⟨hlt', hsame⟩ := widx_move (transition_of_step hst) hl.1
    exact ⟨hlt', hsame.trans hl.2⟩
  refine ⟨m, hm, hsession.1, fun w' hserves => ?_⟩
  have hw : w = w' := hsession.2.symm.trans ((hinv m).attached.serving w' u hserves).2
  subst hw
  rw [hidle] at hserves
  cases hserves

theorem pendCount_eq_zero {pend : Fin udpDnsPendSlots → UdpDnsPend}
    (h : ∀ k, (pend k).used ≠ true) : udpDnsPendCount pend = 0 := by
  rw [udpDnsPendCount, List.length_eq_zero_iff, List.filter_eq_nil_iff]
  exact fun k _ => h k

/-- When no more frames of the session arrive, it holds none in the end. -/
theorem pendCount_settles (hinv : ∀ n, Tended (b.state n)) (hfair : FairTo b w) {n : ℕ}
    (hu : u ∈ (b.state n).connList w)
    (hquiet : ∀ m, n ≤ m → ∀ w' body, b.action m ≠ some (.frame w' u body)) :
    ∃ m, n ≤ m ∧ ∀ l, m ≤ l → u ∉ (b.state l).connList w ∨
      udpDnsPendCount (fun k => (b.state l).pend (u, k)) = 0 := by
  obtain ⟨m₀, hm₀, hunserved⟩ := unserved_eventually hinv hfair.worker hu
  have hslot : ∀ k, ∃ m, m₀ ≤ m ∧ ∀ l, m ≤ l → ¬Holds w u k (b.state l) := by
    intro k
    obtain ⟨m, hm, hnot⟩ : ∃ m, m₀ ≤ m ∧ ¬Holds w u k (b.state m) := by
      by_cases hheld : Holds w u k (b.state m₀)
      · exact held_leadsTo hinv hfair m₀ hheld
      · exact ⟨m₀, Nat.le_refl _, hheld⟩
    have hquiet₀ : ∀ l, m₀ ≤ l → ∀ a, b.action l = some a → ∀ w' body, a ≠ .frame w' u body := by
      rintro l hl a ha w' body rfl
      exact hquiet l (Nat.le_trans hm₀ hl) w' body ha
    have hstays : ∀ l, m₀ ≤ l → Unserved u (b.state l) :=
      Behaviour.always_from hunserved fun l hl a ha hs hst =>
        hs.move (transition_of_step hst) (hquiet₀ l hl a ha)
    refine ⟨m, hm, Behaviour.always_from (P := fun s => ¬Holds w u k s) hnot
      fun l hl a _ hno hst => ?_⟩
    exact (hstays l (Nat.le_trans hm hl)).not_holds_move (transition_of_step hst) hno
  obtain ⟨m₁, hm₁, hnone₁⟩ := hslot 0
  obtain ⟨m₂, hm₂, hnone₂⟩ := hslot 1
  refine ⟨max m₁ m₂, Nat.le_trans (Nat.le_trans hm₀ hm₁) (Nat.le_max_left _ _), fun l hl => ?_⟩
  by_cases hlisted : u ∈ (b.state l).connList w
  · refine Or.inr (pendCount_eq_zero (Fin.forall_fin_two.mpr ⟨fun hused => ?_, fun hused => ?_⟩))
    · exact hnone₁ l (Nat.le_trans (Nat.le_max_left _ _) hl) ⟨hlisted, hused⟩
    · exact hnone₂ l (Nat.le_trans (Nat.le_max_right _ _) hl) ⟨hlisted, hused⟩
  · exact Or.inl hlisted

/-- A run that ends with nothing left to do gives every thread its turns. -/
theorem FairTo.ofRun {as : List UdpDnsEvent} (hrun : run (UdpDns.step inetPton) s as = some t)
    (hquiet : t.Quiet) (hwoken : t.woken w = false) : FairTo (Behaviour.ofRun hrun) w where
  resolver := by
    refine fun r => Behaviour.ofRun_weakFair hrun ?_
    rintro ⟨_, ⟨answer, rfl⟩, hon⟩
    have hnil : t.queue = [] := List.isEmpty_iff.mp hquiet.2.2
    rw [UdpDns.step, resolverStep, ResolverPc.eq_wait (hquiet.2.1 r), hnil] at hon
    cases hon
  worker := by
    refine Behaviour.ofRun_weakFair hrun ?_
    rintro ⟨_, ⟨now, rfl⟩, hon⟩
    rw [UdpDns.step, workerStep, UdpWorkerPc.eq_idle (hquiet.1 w)] at hon
    cases hon
  wake := by
    refine Behaviour.ofRun_strongFair hrun ?_
    rintro ⟨_, ⟨now, rfl⟩, hon⟩
    simp [UdpDns.step, hwoken] at hon

end UdpDns

/-- For every frame that a session holds, some job with its name is in hand: its request is under
way, or the job is done and its worker is or will be woken or is on the way to it. So in every
behaviour that gives the resolvers and the worker their turns the frame is sent or dropped by the
loop for its name, if its session is not closed, and a session that gets no more frames holds none
in the end. -/
theorem no_frame_stranded (inetPton : InetPton) :
    (∀ as s, run (UdpDns.step inetPton) UdpDns.init as = some s →
      ∀ w, ∀ u ∈ s.connList w, ∀ k, (s.pend (u, k)).used = true →
        ∃ j, (s.jobs (w, j)).host = (s.pend (u, k)).host ∧ s.InHand w j) ∧
    ∀ (b : Behaviour (UdpDns.step inetPton)) (w : Fin udpWorkerCount),
      b.state 0 = UdpDns.init → UdpDns.FairTo b w →
      ∀ n, ∀ u ∈ (b.state n).connList w,
        (∀ k, ((b.state n).pend (u, k)).used = true →
          ∃ m, n ≤ m ∧ (b.state m).pend (u, k) = (b.state n).pend (u, k) ∧
            (u ∉ (b.state (m + 1)).connList w ∨ ((b.state (m + 1)).pend (u, k)).used = false ∧
              (b.state m).Releases w ((b.state n).pend (u, k)).host)) ∧
        ((∀ m, n ≤ m → ∀ w' body, b.action m ≠ some (.frame w' u body)) →
          ∃ m, n ≤ m ∧ ∀ l, m ≤ l → u ∉ (b.state l).connList w ∨
            udpDnsPendCount (fun k => (b.state l).pend (u, k)) = 0) := by
  have hstep : ∀ s a t, UdpDns.Tended s → UdpDns.step inetPton s a = some t → UdpDns.Tended t :=
    fun s a t h hst => h.step hst
  refine ⟨fun as s hrun w u hu k hused => ?_, fun b w hinit hfair n u hu => ?_⟩
  · exact (run_invariant hstep UdpDns.Tended.init hrun).inHand hu hused
  · have hinv : ∀ m, UdpDns.Tended (b.state m) :=
      Behaviour.always hstep (by rw [hinit]; exact UdpDns.Tended.init)
    refine ⟨fun k hused => UdpDns.held_released hinv hfair ⟨hu, hused⟩, fun hquiet => ?_⟩
    exact UdpDns.pendCount_settles hinv hfair hu hquiet

def UdpDnsEvent.isFrame : UdpDnsEvent → Bool
  | .frame .. => true
  | _ => false

/-- A session sends to the name `a`, which is not resolved; the frame is dropped. -/
def resolveInVain : List UdpDnsEvent :=
  List.flatten [
    [.openSession 0 true, .frame 0 0 [0, 0, 0, 3, 1, 97, 0, 53, 7], .worker 0 1, .worker 0 1,
      .worker 0 1, .worker 0 1, .resolver 2 none, .resolver 2 none, .resolver 2 none,
      .resolver 2 none, .wake 0 2],
    List.replicate 35 (.worker 0 2)]

/-- After six steps the frame is held; it is dropped, and then the session holds none. -/
theorem no_frame_stranded_resolveInVain :
    ∃ b : Behaviour (UdpDns.step noPton), b.state 0 = UdpDns.init ∧
      ((b.state 6).pend (0, 0)).used = true ∧
      (∃ m, 6 ≤ m ∧ (b.state m).pend (0, 0) = (b.state 6).pend (0, 0) ∧
        (0 ∉ (b.state (m + 1)).connList 0 ∨ ((b.state (m + 1)).pend (0, 0)).used = false ∧
          (b.state m).Releases 0 ((b.state 6).pend (0, 0)).host)) ∧
      ∃ m, 6 ≤ m ∧ ∀ l, m ≤ l → 0 ∉ (b.state l).connList 0 ∨
        udpDnsPendCount (fun k => (b.state l).pend (0, k)) = 0 := by
  obtain ⟨t, ht, hend⟩ : ∃ t, run (UdpDns.step noPton) UdpDns.init resolveInVain = some t ∧
      t.Quiet ∧ t.woken 0 = false := ⟨_, rfl, by decide +kernel⟩
  let b := Behaviour.ofRun ht
  have hsix : ∃ s, run (UdpDns.step noPton) UdpDns.init (resolveInVain.take 6) = some s ∧
      0 ∈ s.connList 0 ∧ (s.pend (0, 0)).used = true := ⟨_, rfl, by decide +kernel⟩
  have hheld : 0 ∈ (b.state 6).connList 0 ∧ ((b.state 6).pend (0, 0)).used = true := by
    obtain ⟨s, hs, hheld⟩ := hsix
    have hstate : b.state 6 = s := congrArg (fun x => x.getD UdpDns.init) hs
    rw [hstate]
    exact hheld
  obtain ⟨hreleased, hsettles⟩ := (no_frame_stranded noPton).2 b 0 rfl
    (UdpDns.FairTo.ofRun ht hend.1 hend.2) 6 0 hheld.1
  refine ⟨b, rfl, hheld.2, hreleased 0 hheld.2, hsettles fun m hm w' body hframe => ?_⟩
  have hlater : (resolveInVain.drop 6).all fun e => !e.isFrame := by
    decide +kernel
  have hmem : UdpDnsEvent.frame w' 0 body ∈ resolveInVain.drop 6 := by
    refine List.mem_iff_getElem?.mpr ⟨m - 6, ?_⟩
    rw [List.getElem?_drop, Nat.add_sub_cancel' hm]
    exact hframe
  exact absurd (List.all_eq_true.mp hlater _ hmem) (by rintro ⟨⟩)

end FiveGProxy
