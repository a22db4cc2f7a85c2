import FiveGProxy.UdpDns.Release
import FiveGProxy.UdpDns.RequestRing
import Mathlib.Data.List.Nodup

/-!
# Every answer goes to the job it was asked for

Beside the system stands a record of the requests: which opening of a job each was made for, which
resolver it was given to, and what `request_java_resolve_host` answered. No number of these is in
the code; the code has only the state of the job and the place of the request in the ring.
-/

namespace FiveGProxy

open Steps

/-- The record of the requests, which are numbered in the order in which the ring accepts them. -/
structure DnsLog where
  /-- How often the job has been opened. -/
  opened : Fin udpWorkerCount × Fin udpDnsJobCount → ℕ
  /-- The requests, each with the opening of its job that it is for. -/
  accepted : List (UdpDnsReq × ℕ)
  /-- The requests that have been taken, each with the resolver that took it. -/
  delivered : List (Fin udpDnsResolverThreads × UdpDnsReq)
  /-- The number of the request that the resolver has taken last. -/
  serial : Fin udpDnsResolverThreads → ℕ
  /-- The calls of `request_java_resolve_host` with the number of the request, the name asked for
  and the answer. -/
  calls : List (ℕ × Host × Option (List UInt8))

def DnsLog.empty : DnsLog := ⟨fun _ => 0, [], [], fun _ => 0, []⟩

def recordDns (s : RingDns) (e : UdpDnsEvent) (log : DnsLog) : DnsLog :=
  match e with
  | .worker w _ =>
      match s.dns.pc w with
      | .defer _ c =>
          match udpDnsJobFind (fun i => s.dns.jobs (w, i)) c.host,
              udpDnsJobAlloc fun i => s.dns.jobs (w, i) with
          | none, some ji =>
              { log with opened := Function.update log.opened (w, ji) (log.opened (w, ji) + 1) }
          | _, _ => log
      | .enqueue _ c ji =>
          match s.ring.enqueue ⟨w, ji, c.host⟩ with
          | some _ =>
              { log with accepted := log.accepted ++ [(⟨w, ji, c.host⟩, log.opened (w, ji))] }
          | none => log
      | _ => log
  | .resolver r answer =>
      match s.dns.resolver r with
      | .wait =>
          match s.ring.dequeue with
          | some (q, _) =>
              { log with
                delivered := log.delivered ++ [(r, q)]
                serial := Function.update log.serial r log.delivered.length }
          | none => log
      | .resolve q => { log with calls := log.calls ++ [(log.serial r, q.host, answer)] }
      | _ => log
  | _ => log

/-- Request number `n` is `q`, made for the present opening of its job. -/
def DnsLog.Current (log : DnsLog) (n : ℕ) (q : UdpDnsReq) : Prop :=
  log.accepted[n]? = some (q, log.opened q.key)

/-- The address of a job is an answer for its name, given to the request of its present opening. -/
def DnsLog.Answers (log : DnsLog) (key : Fin udpWorkerCount × Fin udpDnsJobCount) (j : UdpDnsJob) :
    Prop :=
  ∃ n q, log.Current n q ∧ q.key = key ∧ q.host = j.host ∧ (n, j.host, some j.ip) ∈ log.calls

structure DnsLogInv (v : UdpDns) (log : DnsLog) : Prop where
  fifo : log.accepted.map Prod.fst = log.delivered.map Prod.snd ++ v.queue
  queued : ∀ n q, v.queue[n]? = some q → log.Current (log.delivered.length + n) q
  working : ∀ r q, (v.resolver r).request = some q →
    log.Current (log.serial r) q ∧ log.delivered[log.serial r]? = some (r, q)
  toWrite : ∀ r q ip, v.resolver r = .write q ip → (log.serial r, q.host, some ip) ∈ log.calls
  written : ∀ r q, v.resolver r = .publish q true →
    (log.serial r, q.host, some (v.jobs q.key).ip) ∈ log.calls
  answered : ∀ key, (v.jobs key).state = .doneOk → log.Answers key (v.jobs key)

namespace DnsLogInv

variable {v t : UdpDns} {log : DnsLog}

theorem init : DnsLogInv UdpDns.init .empty where
  fifo := rfl
  queued := nofun
  working := nofun
  toWrite := nofun
  written := nofun
  answered := nofun

theorem congr (h : DnsLogInv v log) (hqueue : t.queue = v.queue) (hres : t.resolver = v.resolver)
    (hjobs : t.jobs = v.jobs) : DnsLogInv t log where
  fifo := hqueue ▸ h.fifo
  queued := hqueue ▸ h.queued
  working := hres ▸ h.working
  toWrite := hres ▸ h.toWrite
  written := by
    rw [hres, hjobs]
    exact h.written
  answered := hjobs ▸ h.answered

theorem length_accepted (h : DnsLogInv v log) :
    log.accepted.length = log.delivered.length + v.queue.length := by
  have hlength := congrArg List.length h.fifo
  simpa using hlength

/-- Opening a job concerns no request that is under way and no job that is done. -/
theorem openJob (h : DnsLogInv v log) (hserved : UdpDns.Served v) {w : Fin udpWorkerCount}
    {u : ℕ} {c : RouteCall} {ji : Fin udpDnsJobCount} (hfree : (v.jobs (w, ji)).state = .free) :
    DnsLogInv ((v.setJob (w, ji) ⟨.inflight, c.host, c.port, []⟩).setPc w (.enqueue u c ji))
      { log with opened := Function.update log.opened (w, ji) (log.opened (w, ji) + 1) } := by
  obtain ⟨owner, hreq⟩ := hserved.requests
  have hcurrent : ∀ n q, q.key ≠ (w, ji) → log.Current n q →
      DnsLog.Current
        { log with opened := Function.update log.opened (w, ji) (log.opened (w, ji) + 1) } n q := by
    intro n q hkey hn
    simp only [DnsLog.Current, Function.update_of_ne hkey]
    exact hn
  have hne : ∀ q, v.InFlight q → q.key ≠ (w, ji) := by
    rintro q hin hkey
    exact hin.ne_free (hkey ▸ hfree)
  refine ⟨h.fifo, fun n q hq => ?_, fun r q hq => ?_, h.toWrite, fun r q hq => ?_, fun key hdone => ?_⟩
  · exact hcurrent _ q (hne q (hreq.queued q (List.mem_of_getElem? hq)).2) (h.queued n q hq)
  · exact (h.working r q hq).imp_left (hcurrent _ q (hne q (hreq.resolving r q hq).2))
  · have hkey := hne q (hreq.resolving r q (congrArg ResolverPc.request hq)).2
    simp only [UdpDns.setPc, UdpDns.setJob, Function.update_of_ne hkey]
    exact h.written r q hq
  · have hkey : key ≠ (w, ji) := by
      rintro rfl
      simp [UdpDns.setPc, UdpDns.setJob] at hdone
    simp only [UdpDns.setPc, UdpDns.setJob, Function.update_of_ne hkey] at hdone ⊢
    obtain ⟨n, q, hn, rfl, hrest⟩ := h.answered key hdone
    exact ⟨n, q, hcurrent n q hkey hn, rfl, hrest⟩

/-- A job that is freed keeps its address, but it is not done any more. -/
theorem freeJob (h : DnsLogInv v log) {w : Fin udpWorkerCount} {i : Fin udpDnsJobCount}
    {pc : UdpWorkerPc} :
    DnsLogInv ((v.setJob (w, i) { v.jobs (w, i) with state := .free }).setPc w pc) log := by
  have hip : ∀ key, (Function.update v.jobs (w, i) { v.jobs (w, i) with state := .free } key).ip =
      (v.jobs key).ip := by
    intro key
    by_cases hkey : key = (w, i)
    · subst hkey
      rw [Function.update_self]
    · rw [Function.update_of_ne hkey]
  refine ⟨h.fifo, h.queued, h.working, h.toWrite, fun r q hq => ?_, fun key hdone => ?_⟩
  · simp only [UdpDns.setPc, UdpDns.setJob, hip]
    exact h.written r q hq
  · have hkey : key ≠ (w, i) := by
      rintro rfl
      simp [UdpDns.setPc, UdpDns.setJob] at hdone
    simp only [UdpDns.setPc, UdpDns.setJob, Function.update_of_ne hkey] at hdone ⊢
    exact h.answered key hdone

theorem push (h : DnsLogInv v log) {w : Fin udpWorkerCount} {c : RouteCall}
    {ji : Fin udpDnsJobCount} {pc : UdpWorkerPc} :
    DnsLogInv (UdpDns.setPc { v with queue := v.queue ++ [⟨w, ji, c.host⟩] } w pc)
      { log with accepted := log.accepted ++ [(⟨w, ji, c.host⟩, log.opened (w, ji))] } := by
  have hcurrent : ∀ n q, log.Current n q → DnsLog.Current
      { log with accepted := log.accepted ++ [(⟨w, ji, c.host⟩, log.opened (w, ji))] } n q := by
    intro n q hn
    obtain ⟨hlt, -⟩ := List.getElem?_eq_some_iff.mp hn
    rw [DnsLog.Current, List.getElem?_append_left hlt]
    exact hn
  refine ⟨?_, fun n q hq => ?_, fun r q hq => (h.working r q hq).imp_left (hcurrent _ q), h.toWrite,
    h.written, fun key hdone => ?_⟩
  · simp only [UdpDns.setPc, List.map_append, h.fifo, List.append_assoc]
    rfl
  · rcases Nat.lt_or_ge n v.queue.length with hlt | hge
    · refine hcurrent _ q (h.queued n q ?_)
      rwa [UdpDns.setPc, List.getElem?_append_left hlt] at hq
    · rw [UdpDns.setPc, List.getElem?_append_right hge] at hq
      obtain ⟨hlt, hget⟩ := List.getElem?_eq_some_iff.mp hq
      have hn : n = v.queue.length := Nat.le_antisymm (Nat.sub_eq_zero_iff_le.mp
        (Nat.lt_one_iff.mp hlt)) hge
      have hqeq : q = ⟨w, ji, c.host⟩ := by
        rw [← hget]
        simp [hn]
      subst hqeq
      rw [DnsLog.Current, hn, ← h.length_accepted]
      simp [UdpDnsReq.key]
  · obtain ⟨n, q, hn, hrest⟩ := h.answered key hdone
    exact ⟨n, q, hcurrent n q hn, hrest⟩

theorem pop (h : DnsLogInv v log) {r : Fin udpDnsResolverThreads} {q : UdpDnsReq}
    {rest : List UdpDnsReq} (hqueue : v.queue = q :: rest) :
    DnsLogInv (UdpDns.setResolver { v with queue := rest } r (.resolve q))
      { log with
        delivered := log.delivered ++ [(r, q)]
        serial := Function.update log.serial r log.delivered.length } := by
  have hother : ∀ r', r' ≠ r → (UdpDns.setResolver { v with queue := rest } r (.resolve q)).resolver r' =
      v.resolver r' ∧ Function.update log.serial r log.delivered.length r' = log.serial r' :=
    fun r' hr => ⟨Function.update_of_ne hr _ _, Function.update_of_ne hr _ _⟩
  have hself : (UdpDns.setResolver { v with queue := rest } r (.resolve q)).resolver r = .resolve q :=
    Function.update_self ..
  refine ⟨?_, fun n q' hq' => ?_, fun r' q' hq' => ?_, fun r' q' ip hq' => ?_, fun r' q' hq' => ?_,
    h.answered⟩
  · rw [h.fifo, hqueue]
    simp [UdpDns.setResolver]
  · rw [List.length_append, List.length_singleton, Nat.add_assoc, Nat.add_comm 1]
    refine h.queued (n + 1) q' ?_
    rw [hqueue, List.getElem?_cons_succ]
    exact hq'
  · by_cases hr : r' = r
    · subst hr
      rw [hself] at hq'
      cases hq'
      have hcurrent := h.queued 0 q (by rw [hqueue]; rfl)
      simp only [DnsLog.Current, Function.update_self]
      exact ⟨hcurrent, by simp⟩
    · rw [(hother r' hr).1] at hq'
      obtain ⟨hcurrent, hgiven⟩ := h.working r' q' hq'
      simp only [DnsLog.Current, (hother r' hr).2]
      refine ⟨hcurrent, ?_⟩
      obtain ⟨hlt, -⟩ := List.getElem?_eq_some_iff.mp hgiven
      rw [List.getElem?_append_left hlt]
      exact hgiven
  · by_cases hr : r' = r
    · subst hr
      rw [hself] at hq'
      cases hq'
    · rw [(hother r' hr).1] at hq'
      simp only [(hother r' hr).2]
      exact h.toWrite r' q' ip hq'
  · by_cases hr : r' = r
    · subst hr
      rw [hself] at hq'
      cases hq'
    · rw [(hother r' hr).1] at hq'
      simp only [(hother r' hr).2]
      exact h.written r' q' hq'

theorem resolver_cases {r : Fin udpDnsResolverThreads} {pc : ResolverPc}
    (hres : t.resolver = Function.update v.resolver r pc) (r' : Fin udpDnsResolverThreads)
    {x : ResolverPc} (hx : t.resolver r' = x) :
    r' = r ∧ pc = x ∨ r' ≠ r ∧ v.resolver r' = x := by
  rw [hres] at hx
  by_cases hr : r' = r
  · subst hr
    exact Or.inl ⟨rfl, by simpa using hx⟩
  · exact Or.inr ⟨hr, by simpa [hr] using hx⟩

/-- A resolver goes on without touching the jobs; the calls may become more. -/
theorem moveResolver (h : DnsLogInv v log) {r : Fin udpDnsResolverThreads} {pc : ResolverPc}
    {calls : List (ℕ × Host × Option (List UInt8))} (hcalls : ∀ x ∈ log.calls, x ∈ calls)
    (hqueue : t.queue = v.queue) (hjobs : t.jobs = v.jobs)
    (hres : t.resolver = Function.update v.resolver r pc)
    (hreq : ∀ q, pc.request = some q → (v.resolver r).request = some q)
    (hwrite : ∀ q ip, pc = .write q ip → (log.serial r, q.host, some ip) ∈ calls)
    (hpublish : ∀ q, pc ≠ .publish q true) : DnsLogInv t { log with calls := calls } := by
  refine ⟨?_, ?_, fun r' q hq => ?_, fun r' q ip hq => ?_, fun r' q hq => ?_, fun key hdone => ?_⟩
  · rw [hqueue]
    exact h.fifo
  · rw [hqueue]
    exact h.queued
  · rcases resolver_cases hres r' rfl with ⟨rfl, hpc⟩ | ⟨-, hold⟩
    · exact h.working r' q (hreq q (hpc ▸ hq))
    · exact h.working r' q (hold ▸ hq)
  · rcases resolver_cases hres r' hq with ⟨rfl, hpc⟩ | ⟨-, hold⟩
    · exact hwrite q ip hpc
    · exact hcalls _ (h.toWrite r' q ip hold)
  · rcases resolver_cases hres r' hq with ⟨rfl, hpc⟩ | ⟨-, hold⟩
    · exact absurd hpc (hpublish q)
    · rw [hjobs]
      exact hcalls _ (h.written r' q hold)
  · rw [hjobs] at hdone ⊢
    obtain ⟨n, q, hn, hkey, hhost, hcall⟩ := h.answered key hdone
    exact ⟨n, q, hn, hkey, hhost, hcalls _ hcall⟩

theorem write (h : DnsLogInv v log) (hserved : UdpDns.Served v) {r : Fin udpDnsResolverThreads}
    {q : UdpDnsReq} {ip : List UInt8} (hpc : v.resolver r = .write q ip) :
    DnsLogInv ((v.setJob q.key { v.jobs q.key with ip := ip }).setResolver r (.publish q true)) log := by
  obtain ⟨owner, hreq⟩ := hserved.requests
  have hq : (v.resolver r).request = some q := by
    rw [hpc]
    rfl
  obtain ⟨hown, hin⟩ := hreq.resolving r q hq
  have hres : ((v.setJob q.key { v.jobs q.key with ip := ip }).setResolver r
      (.publish q true)).resolver = Function.update v.resolver r (.publish q true) := rfl
  refine ⟨h.fifo, h.queued, fun r' q' hq' => ?_, fun r' q' ip' hq' => ?_, fun r' q' hq' => ?_,
    fun key hdone => ?_⟩
  · rcases resolver_cases hres r' rfl with ⟨rfl, hnew⟩ | ⟨-, hold⟩
    · rw [← hnew] at hq'
      exact h.working r' q' (hq.trans hq')
    · exact h.working r' q' (hold ▸ hq')
  · rcases resolver_cases hres r' hq' with ⟨rfl, hnew⟩ | ⟨-, hold⟩
    · cases hnew
    · exact h.toWrite r' q' ip' hold
  · rcases resolver_cases hres r' hq' with ⟨rfl, hnew⟩ | ⟨hr, hold⟩
    · cases hnew
      simp only [UdpDns.setResolver, UdpDns.setJob, Function.update_self]
      exact h.toWrite r' q ip hpc
    · have hkey : q'.key ≠ q.key := fun heq =>
        hr (hreq.resolver_eq hq (congrArg ResolverPc.request hold) heq)
      simp only [UdpDns.setResolver, UdpDns.setJob, Function.update_of_ne hkey]
      exact h.written r' q' hold
  · have hkey : key ≠ q.key := by
      rintro rfl
      simp only [UdpDns.setResolver, UdpDns.setJob, Function.update_self] at hdone
      exact absurd (hin.1.symm.trans hdone) (by rintro ⟨⟩)
    simp only [UdpDns.setResolver, UdpDns.setJob, Function.update_of_ne hkey] at hdone ⊢
    exact h.answered key hdone

theorem publish (h : DnsLogInv v log) (hserved : UdpDns.Served v) {r : Fin udpDnsResolverThreads}
    {q : UdpDnsReq} {ok : Bool} (hpc : v.resolver r = .publish q ok) :
    DnsLogInv ((v.setJob q.key
      { v.jobs q.key with state := if ok then .doneOk else .doneFail }).setResolver r (.wake q))
      log := by
  obtain ⟨owner, hreq⟩ := hserved.requests
  have hq : (v.resolver r).request = some q := by
    rw [hpc]
    rfl
  obtain ⟨hown, hin⟩ := hreq.resolving r q hq
  have hres : ((v.setJob q.key
      { v.jobs q.key with state := if ok then .doneOk else .doneFail }).setResolver r
        (.wake q)).resolver = Function.update v.resolver r (.wake q) := rfl
  refine ⟨h.fifo, h.queued, fun r' q' hq' => ?_, fun r' q' ip' hq' => ?_, fun r' q' hq' => ?_,
    fun key hdone => ?_⟩
  · rcases resolver_cases hres r' rfl with ⟨rfl, hnew⟩ | ⟨-, hold⟩
    · rw [← hnew] at hq'
      cases hq'
    · exact h.working r' q' (hold ▸ hq')
  · rcases resolver_cases hres r' hq' with ⟨rfl, hnew⟩ | ⟨-, hold⟩
    · cases hnew
    · exact h.toWrite r' q' ip' hold
  · rcases resolver_cases hres r' hq' with ⟨rfl, hnew⟩ | ⟨hr, hold⟩
    · cases hnew
    · have hkey : q'.key ≠ q.key := fun heq =>
        hr (hreq.resolver_eq hq (congrArg ResolverPc.request hold) heq)
      simp only [UdpDns.setResolver, UdpDns.setJob, Function.update_of_ne hkey]
      exact h.written r' q' hold
  · by_cases hkey : key = q.key
    · subst hkey
      cases ok with
      | false => simp [UdpDns.setResolver, UdpDns.setJob] at hdone
      | true =>
          have hcall := h.written r q hpc
          simp only [UdpDns.setResolver, UdpDns.setJob, Function.update_self]
          refine ⟨log.serial r, q, (h.working r q hq).1, rfl, hin.2.symm, ?_⟩
          show (log.serial r, (v.jobs q.key).host, some (v.jobs q.key).ip) ∈ log.calls
          rw [hin.2]
          exact hcall
    · simp only [UdpDns.setResolver, UdpDns.setJob, Function.update_of_ne hkey] at hdone ⊢
      exact h.answered key hdone

theorem restarted (h : DnsLogInv v log) (hquiet : v.Quiet) : DnsLogInv v.restarted log := by
  have hres : ∀ r, v.resolver r = .wait := fun r => ResolverPc.eq_wait (hquiet.2.1 r)
  refine ⟨h.fifo, h.queued, h.working, h.toWrite, fun r q hq => ?_, fun key hdone => ?_⟩
  · simp [UdpDns.restarted, hres r] at hq
  · simp [UdpDns.restarted] at hdone

variable {inetPton : InetPton} {s : RingDns} {e : UdpDnsEvent}

/-- A worker that is neither at `udp_dns_job_alloc` nor at `udp_dns_enqueue` is not recorded. -/
theorem recordDns_worker {w : Fin udpWorkerCount} {now : ℕ} {pc : UdpWorkerPc}
    (hpc : s.unrolled.pc w = pc) (hdefer : ∀ u c, pc ≠ .defer u c)
    (henqueue : ∀ u c ji, pc ≠ .enqueue u c ji) : recordDns s (.worker w now) log = log := by
  have hpc' : s.dns.pc w = pc := hpc
  simp only [recordDns, hpc']

theorem step_transition (h : DnsLogInv s.unrolled log) (hserved : UdpDns.Served s.unrolled)
    (ht : UdpDns.Transition inetPton s.unrolled e t) : DnsLogInv t (recordDns s e log) := by
  cases ht with
  | openSession | closeSession | frame | wake => exact h.congr rfl rfl rfl
  | unrouted w now u c hpc | miss w now u c hpc | dropped w now u c hpc | skip w now i now' hpc
  | drained w now i now' hpc | answer w now i now' dst hpc | noAnswer w now i now' hpc
  | put w now i dst now' hpc =>
      rw [recordDns_worker hpc (by rintro _ _ ⟨⟩) (by rintro _ _ _ ⟨⟩)]
      exact h.congr rfl rfl rfl
  | literal w now u c dst hpc | hit w now u c dst hpc =>
      have hsame := UdpDns.udpSend5g_same s.unrolled u c c.payload dst
      rw [recordDns_worker hpc (by rintro _ _ ⟨⟩) (by rintro _ _ _ ⟨⟩)]
      exact h.congr hsame.queue hsame.resolver hsame.jobs
  | held w now u c ji hpc =>
      have hsame := UdpDns.holdFrame_same s.unrolled u c
      rw [recordDns_worker hpc (by rintro _ _ ⟨⟩) (by rintro _ _ _ ⟨⟩)]
      exact h.congr hsame.queue hsame.resolver hsame.jobs
  | flush w now i dst now' hpc =>
      have hsame := (s.unrolled.udpDnsFlushPending_clears w (s.unrolled.jobs (w, i)).host dst).same
      rw [recordDns_worker hpc (by rintro _ _ ⟨⟩) (by rintro _ _ _ ⟨⟩)]
      exact h.congr hsame.queue hsame.resolver hsame.jobs
  | drop w now i now' hpc =>
      have hsame := (s.unrolled.udpDnsDropPending_clears w (s.unrolled.jobs (w, i)).host).same
      rw [recordDns_worker hpc (by rintro _ _ ⟨⟩) (by rintro _ _ _ ⟨⟩)]
      exact h.congr hsame.queue hsame.resolver hsame.jobs
  | free w now i now' hpc =>
      rw [recordDns_worker hpc (by rintro _ _ ⟨⟩) (by rintro _ _ _ ⟨⟩)]
      exact h.freeJob
  | found w now u c ji hpc hfind =>
      have hpc' : s.dns.pc w = .defer u c := hpc
      have hfind' : udpDnsJobFind (fun i => s.dns.jobs (w, i)) c.host = some ji := hfind
      simp only [recordDns, hpc', hfind']
      exact h.congr rfl rfl rfl
  | jobsFull w now u c hpc hfind halloc =>
      have hpc' : s.dns.pc w = .defer u c := hpc
      have hfind' : udpDnsJobFind (fun i => s.dns.jobs (w, i)) c.host = none := hfind
      have halloc' : udpDnsJobAlloc (fun i => s.dns.jobs (w, i)) = none := halloc
      simp only [recordDns, hpc', hfind', halloc']
      exact h.congr rfl rfl rfl
  | opened w now u c ji hpc hfind halloc =>
      have hpc' : s.dns.pc w = .defer u c := hpc
      have hfind' : udpDnsJobFind (fun i => s.dns.jobs (w, i)) c.host = none := hfind
      have halloc' : udpDnsJobAlloc (fun i => s.dns.jobs (w, i)) = some ji := halloc
      simp only [recordDns, hpc', hfind', halloc']
      exact h.openJob hserved (udpDnsJobAlloc_eq_some halloc)
  | enqueued w now u c ji hpc hroom =>
      have hpc' : s.dns.pc w = .enqueue u c ji := hpc
      have hlength : s.unrolled.queue.length = s.ring.count := s.ring.length_contents
      rw [hlength] at hroom
      cases hring : s.ring.enqueue ⟨w, ji, c.host⟩ with
      | none => exact absurd (RingBuffer.enqueue_eq_none.mp hring) (Nat.not_le.mpr hroom)
      | some ring =>
          simp only [recordDns, hpc', hring]
          exact h.push
  | rolledBack w now u c ji hpc hfull =>
      have hpc' : s.dns.pc w = .enqueue u c ji := hpc
      have hlength : s.unrolled.queue.length = s.ring.count := s.ring.length_contents
      rw [hlength] at hfull
      have hring : s.ring.enqueue ⟨w, ji, c.host⟩ = none :=
        RingBuffer.enqueue_eq_none.mpr (Nat.not_lt.mp hfull)
      simp only [recordDns, hpc', hring]
      exact h.freeJob
  | take r answer q rest hpc hqueue =>
      have hpc' : s.dns.resolver r = .wait := hpc
      cases hring : s.ring.dequeue with
      | none =>
          rw [show s.unrolled.queue = [] from RingBuffer.dequeue_eq_none.mp hring] at hqueue
          cases hqueue
      | some p =>
          have hq : p.1 = q := by
            have hcontents : s.unrolled.queue = p.1 :: p.2.contents :=
              RingBuffer.contents_dequeue hring
            exact (List.cons.inj (hcontents.symm.trans hqueue)).1
          simp only [recordDns, hpc', hring, hq]
          exact h.pop hqueue
  | resolved r q ip hpc =>
      have hpc' : s.dns.resolver r = .resolve q := hpc
      simp only [recordDns, hpc']
      refine h.moveResolver (fun _ hx => List.mem_append_left _ hx) rfl rfl rfl (fun q' hq' => ?_) ?_
        nofun
      · rw [hpc]
        exact hq'
      · rintro q' ip' ⟨⟩
        exact List.mem_append_right _ List.mem_cons_self
  | refused r q ip hpc | unresolved r q hpc =>
      have hpc' : s.dns.resolver r = .resolve q := hpc
      simp only [recordDns, hpc']
      refine h.moveResolver (fun _ hx => List.mem_append_left _ hx) rfl rfl rfl (fun q' hq' => ?_)
        nofun nofun
      rw [hpc]
      exact hq'
  | write r answer q ip hpc =>
      have hpc' : s.dns.resolver r = .write q ip := hpc
      simp only [recordDns, hpc']
      exact h.write hserved hpc
  | publish r answer q ok hpc =>
      have hpc' : s.dns.resolver r = .publish q ok := hpc
      simp only [recordDns, hpc']
      exact h.publish hserved hpc
  | wakeWorker r answer q hpc =>
      have hpc' : s.dns.resolver r = .wake q := hpc
      simp only [recordDns, hpc']
      exact h.moveResolver (fun _ hx => hx) rfl rfl rfl nofun nofun nofun
  | restart hquiet => exact h.restarted hquiet

end DnsLogInv

/-! ### Every run -/

def RingDns.requests (s : RingDns) : List UdpDnsReq :=
  s.ring.contents ++
    (List.finRange udpDnsResolverThreads).filterMap fun r => (s.dns.resolver r).request

/-- What every reachable state with its record has. -/
structure Delivering (s : RingDns) (log : DnsLog) : Prop where
  served : UdpDns.Served s.unrolled
  log : DnsLogInv s.unrolled log

namespace Delivering

variable {inetPton : InetPton} {s t : RingDns} {log : DnsLog} {e : UdpDnsEvent}

theorem init : Delivering RingDns.init .empty := ⟨UdpDns.Served.init, DnsLogInv.init⟩

theorem step (h : Delivering s log) (hstep : ringStep inetPton s e = some t) :
    Delivering t (recordDns s e log) := by
  have ht := UdpDns.transition_of_step (unrolled_step hstep)
  exact ⟨h.served.step ht, h.log.step_transition h.served ht⟩

theorem mem_requests {q : UdpDnsReq} (hq : q ∈ s.requests) :
    q ∈ s.unrolled.queue ∨ ∃ r, (s.unrolled.resolver r).request = some q := by
  rcases List.mem_append.mp hq with hq | hq
  · exact Or.inl hq
  · obtain ⟨r, -, hr⟩ := List.mem_filterMap.mp hq
    exact Or.inr ⟨r, hr⟩

theorem inFlight (h : Delivering s log) {q : UdpDnsReq} (hq : q ∈ s.requests) :
    s.unrolled.InFlight q := by
  obtain ⟨owner, hreq⟩ := h.served.requests
  rcases mem_requests hq with hq | ⟨r, hr⟩
  · exact (hreq.queued q hq).2
  · exact (hreq.resolving r q hr).2

theorem nodup (h : Delivering s log) : (s.requests.map UdpDnsReq.key).Nodup := by
  obtain ⟨owner, hreq⟩ := h.served.requests
  rw [RingDns.requests, List.map_append, List.map_filterMap]
  refine List.nodup_append.mpr ⟨hreq.nodup, ?_, ?_⟩
  · refine List.Nodup.filterMap (fun r r' key hr hr' => ?_) (List.nodup_finRange _)
    obtain ⟨q, hq, rfl⟩ := Option.map_eq_some_iff.mp hr
    obtain ⟨q', hq', hkey⟩ := Option.map_eq_some_iff.mp hr'
    exact hreq.resolver_eq hq' hq hkey.symm
  · rintro key hqueued _ hworking rfl
    obtain ⟨q, hq, rfl⟩ := List.mem_map.mp hqueued
    obtain ⟨r, -, hr⟩ := List.mem_filterMap.mp hworking
    obtain ⟨q', hq', hkey⟩ := Option.map_eq_some_iff.mp hr
    have howner := (hreq.queued q hq).1
    rw [← hkey, (hreq.resolving r q' hq').1] at howner
    cases howner

theorem opened_free {key : Fin udpWorkerCount × Fin udpDnsJobCount}
    (hopened : (recordDns s e log).opened key ≠ log.opened key) :
    (s.dns.jobs key).state = .free := by
  unfold recordDns at hopened
  split at hopened
  case h_3 => exact absurd rfl hopened
  case h_2 =>
    split at hopened
    case h_1 => split at hopened <;> exact absurd rfl hopened
    case h_2 | h_3 => exact absurd rfl hopened
  case h_1 w now =>
    split at hopened
    case h_3 => exact absurd rfl hopened
    case h_2 => split at hopened <;> exact absurd rfl hopened
    case h_1 =>
      split at hopened
      case h_2 => exact absurd rfl hopened
      case h_1 ji hfind halloc =>
        have hkey : key = (w, ji) := by
          by_contra hne
          exact hopened (Function.update_of_ne hne _ _)
        rw [hkey]
        exact udpDnsJobAlloc_eq_some halloc

theorem recordDns_grows (s : RingDns) (e : UdpDnsEvent) (log : DnsLog) :
    log.accepted.length ≤ (recordDns s e log).accepted.length ∧
      log.delivered.length ≤ (recordDns s e log).delivered.length := by
  unfold recordDns
  repeat' split
  all_goals simp

theorem resolver_enabled {r : Fin udpDnsResolverThreads}
    (h : s.unrolled.resolver r = .wait → s.unrolled.queue ≠ []) :
    Enabled (record (ringStep inetPton) recordDns) (resolverTurns r) (s, log) := by
  refine ⟨.resolver r none, ⟨none, rfl⟩, ?_⟩
  have hsome : ((ringStep inetPton s (.resolver r none)).map RingDns.unrolled).isSome = true := by
    rw [ringStep_map_unrolled]
    exact (UdpDns.resolverStep_isSome h : (s.unrolled.resolverStep r none).isSome = true)
  rw [Option.isSome_map] at hsome
  rw [record, Option.isSome_map]
  exact hsome

theorem not_resolver_enabled {r : Fin udpDnsResolverThreads} (hwait : s.dns.resolver r = .wait)
    (hempty : s.ring.count = 0) :
    ¬Enabled (record (ringStep inetPton) recordDns) (resolverTurns r) (s, log) := by
  rintro ⟨_, ⟨answer, rfl⟩, hon⟩
  have hnone : s.ring.dequeue = none := by
    rw [RingBuffer.dequeue_eq_none, ← List.length_eq_zero_iff, RingBuffer.length_contents]
    exact hempty
  simp [record, ringStep, hwait, RingDns.dequeueStep, hnone] at hon

/-- How far the first resolver is from taking request number `i`. -/
def deliveryRank (i : ℕ) (p : RingDns × DnsLog) : ℕ :=
  5 * (i - p.2.delivered.length) + (p.1.unrolled.resolver 0).rank

theorem deliveryRank_move {i : ℕ} (h : Delivering s log) (hstep : ringStep inetPton s e = some t)
    (hle : log.delivered.length ≤ i) (hnot : (recordDns s e log).delivered.length ≤ i) :
    deliveryRank i (t, recordDns s e log) ≤ deliveryRank i (s, log) ∧
      (e ∈ resolverTurns 0 → deliveryRank i (t, recordDns s e log) < deliveryRank i (s, log)) := by
  have ht := UdpDns.transition_of_step (unrolled_step hstep)
  have hgrows := recordDns_grows s e log
  have hlength := h.log.length_accepted
  have hlength' := (h.step hstep).log.length_accepted
  have hupdate : ∀ r pc, t.unrolled.resolver = Function.update s.unrolled.resolver r pc →
      pc.rank < (s.unrolled.resolver r).rank → (∀ r', e ∈ resolverTurns r' → r' = r) →
      (t.unrolled.resolver 0).rank ≤ (s.unrolled.resolver 0).rank ∧
        (e ∈ resolverTurns 0 → (t.unrolled.resolver 0).rank < (s.unrolled.resolver 0).rank) := by
    intro r pc hres hrank he
    rw [hres]
    by_cases hr : 0 = r
    · subst hr
      rw [Function.update_self]
      exact ⟨Nat.le_of_lt hrank, fun _ => hrank⟩
    · rw [Function.update_of_ne hr]
      exact ⟨Nat.le_refl _, fun h0 => absurd (he 0 h0) hr⟩
  simp only [deliveryRank]
  cases UdpDns.resolver_move ht with
  | others added hqueue hres he =>
      rw [hres]
      exact ⟨by omega, fun h0 => absurd h0 (he 0)⟩
  | take r q rest hwait hqueue hrest hres he =>
      have hrank : (t.unrolled.resolver 0).rank ≤ (s.unrolled.resolver 0).rank + 4 := by
        rw [hres]
        by_cases hr : 0 = r
        · subst hr
          simp [ResolverPc.rank]
        · rw [Function.update_of_ne hr]
          exact Nat.le_add_right _ _
      rw [hqueue, List.length_cons] at hlength
      rw [hrest] at hlength'
      exact ⟨by omega, fun _ => by omega⟩
  | work r pc hreq hrank hqueue hres hpc he =>
      have hlower := hupdate r pc hres hrank he
      exact ⟨by omega, fun h0 => by have := hlower.2 h0; omega⟩
  | wake r q hwake hwoken hqueue hres he =>
      have hlower := hupdate r .wait hres (by rw [hwake]; exact Nat.one_pos) he
      exact ⟨by omega, fun h0 => by have := hlower.2 h0; omega⟩

theorem accepted_leadsTo {b : Behaviour (record (ringStep inetPton) recordDns)}
    (hinv : ∀ n, Delivering (b.state n).1 (b.state n).2) (hfair : b.WeakFair (resolverTurns 0))
    (i : ℕ) :
    b.LeadsTo (fun p => i < p.2.accepted.length) fun p => i < p.2.delivered.length := by
  have hwaiting : b.LeadsTo (fun p => i < p.2.accepted.length ∧ p.2.delivered.length ≤ i)
      fun p => i < p.2.delivered.length := by
    refine hfair.leadsTo (I := fun p => Delivering p.1 p.2) (deliveryRank i) hinv
      (fun p h hp => ?_) (fun p e p' h hp hst => ?_) fun p e p' h hp he hst => ?_
    · refine resolver_enabled fun _ hnil => ?_
      have hlength := h.log.length_accepted
      rw [hnil, List.length_nil] at hlength
      omega
    · obtain ⟨hstep, hlog⟩ := record_eq_some.mp hst
      rw [← Prod.mk.eta (p := p'), ← hlog]
      rcases Nat.lt_or_ge i (recordDns p.1 e p.2).delivered.length with hlt | hge
      · exact Or.inl hlt
      · refine Or.inr ⟨⟨Nat.lt_of_lt_of_le hp.1 (recordDns_grows p.1 e p.2).1, hge⟩, ?_⟩
        exact (h.deliveryRank_move hstep hp.2 hge).1
    · obtain ⟨hstep, hlog⟩ := record_eq_some.mp hst
      rw [← Prod.mk.eta (p := p'), ← hlog]
      rcases Nat.lt_or_ge i (recordDns p.1 e p.2).delivered.length with hlt | hge
      · exact Or.inl hlt
      · exact Or.inr ((h.deliveryRank_move hstep hp.2 hge).2 he)
  intro n hn
  rcases Nat.lt_or_ge i (b.state n).2.delivered.length with hlt | hge
  · exact ⟨n, Nat.le_refl n, hlt⟩
  · exact hwaiting n ⟨hn, hge⟩

end Delivering

/-- No job has two requests in the ring or at a resolver, and none is opened while it has one. The
address of a job that `udp_dns_drain` is going to use is the answer that `request_java_resolve_host`
gave for its name to the request of the present opening of the job. What the ring has accepted is
what the resolvers have taken, in this order, followed by what is in the ring, which holds at most
128 requests; and every accepted request is taken when the resolvers get their turns. -/
theorem resolver_results_match (inetPton : InetPton) :
    (∀ as s log, run (record (ringStep inetPton) recordDns) (RingDns.init, .empty) as =
        some (s, log) →
      (s.requests.map UdpDnsReq.key).Nodup ∧
      (∀ e key, (recordDns s e log).opened key ≠ log.opened key → ∀ q ∈ s.requests, q.key ≠ key) ∧
      (∀ key, (s.dns.jobs key).state = .doneOk → log.Answers key (s.dns.jobs key)) ∧
      log.accepted.map Prod.fst = log.delivered.map Prod.snd ++ s.ring.contents ∧
      s.ring.contents.length = s.ring.count ∧ s.ring.count ≤ udpDnsQueueMax) ∧
    ∀ b : Behaviour (record (ringStep inetPton) recordDns), b.state 0 = (RingDns.init, .empty) →
      (∀ r, b.WeakFair (resolverTurns r)) → ∀ n, ∀ i < (b.state n).2.accepted.length,
        ∃ m, n ≤ m ∧ i < (b.state m).2.delivered.length := by
  have hkeep : ∀ s log e t, Delivering s log → ringStep inetPton s e = some t →
      Delivering t (recordDns s e log) := fun s log e t h hstep => h.step hstep
  refine ⟨fun as s log hrun => ?_, fun b hinit hfair n i hi => ?_⟩
  · have h : Delivering s log := record_invariant hkeep Delivering.init hrun
    refine ⟨h.nodup, fun e key hopened q hq hkey => ?_, h.log.answered, h.log.fifo,
      s.ring.length_contents, s.ring.count_le⟩
    exact (h.inFlight hq).ne_free (hkey ▸ Delivering.opened_free hopened)
  · have hinv : ∀ m, Delivering (b.state m).1 (b.state m).2 := by
      refine Behaviour.always (P := fun p : RingDns × DnsLog => Delivering p.1 p.2)
        (fun p e p' hp hst => ?_) (by rw [hinit]; exact Delivering.init)
      obtain ⟨hstep, hlog⟩ := record_eq_some.mp hst
      exact hlog ▸ hkeep _ _ e _ hp hstep
    exact Delivering.accepted_leadsTo hinv (hfair 0) i n hi

/-- A session sends to the name `a`, and a resolver gets the answer `1` for it. -/
def resolveName : List UdpDnsEvent :=
  [.openSession 0 true, .frame 0 0 [0, 0, 0, 3, 1, 97, 0, 53, 7], .worker 0 1, .worker 0 1,
    .worker 0 1, .worker 0 1, .resolver 2 none, .resolver 2 (some [49]), .resolver 2 none,
    .resolver 2 none, .resolver 2 none]

theorem resolver_results_match_resolveName :
    (∃ s log, run (record (ringStep noPton) recordDns) (RingDns.init, .empty) resolveName =
        some (s, log) ∧ (s.dns.jobs (0, 0)).state = .doneOk ∧
      log.Answers (0, 0) (s.dns.jobs (0, 0))) ∧
    ∃ b : Behaviour (record (ringStep noPton) recordDns), b.state 0 = (RingDns.init, .empty) ∧
      ∃ m, 6 ≤ m ∧ 0 < (b.state m).2.delivered.length := by
  obtain ⟨s, log, hrun, hend⟩ : ∃ s log,
      run (record (ringStep noPton) recordDns) (RingDns.init, .empty) resolveName = some (s, log) ∧
        (s.dns.jobs (0, 0)).state = .doneOk ∧ (∀ r, (s.dns.resolver r).isWaiting = true) ∧
        s.ring.count = 0 := ⟨_, _, rfl, by decide +kernel⟩
  refine ⟨⟨s, log, hrun, hend.1, ?_⟩, Behaviour.ofRun hrun, rfl, ?_⟩
  · exact ((resolver_results_match noPton).1 _ s log hrun).2.2.1 (0, 0) hend.1
  · refine (resolver_results_match noPton).2 (Behaviour.ofRun hrun) rfl (fun r => ?_) 6 0 ?_
    · exact Behaviour.ofRun_weakFair hrun
        (Delivering.not_resolver_enabled (ResolverPc.eq_wait (hend.2.1 r)) hend.2.2)
    · obtain ⟨p, hp, hlt⟩ : ∃ p,
          run (record (ringStep noPton) recordDns) (RingDns.init, .empty) (resolveName.take 6) =
            some p ∧ 0 < p.2.accepted.length := ⟨_, rfl, by decide +kernel⟩
      have hstate : (Behaviour.ofRun hrun).state 6 = p :=
        congrArg (fun x => x.getD (RingDns.init, DnsLog.empty)) hp
      rw [hstate]
      exact hlt

end FiveGProxy
