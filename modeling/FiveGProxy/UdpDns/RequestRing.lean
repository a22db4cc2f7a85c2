import FiveGProxy.UdpDns.Transition
import FiveGProxy.Library.RingBuffer

/-!
# The ring of requests

The code keeps the queue of requests in an array, `g_dns_queue`. `ringStep` is the system with this
array. It takes exactly the steps of the system whose queue is a list (`ringStep_map_unrolled`), so
what holds in every run with the list holds in every run with the array.
-/

namespace FiveGProxy

open Steps

abbrev UdpDnsRing := RingBuffer UdpDnsReq udpDnsQueueMax

/-- The system with the array. The requests are in the ring; `dns.queue` is not used. -/
structure RingDns where
  dns : UdpDns
  ring : UdpDnsRing

def UdpDnsRing.zero : UdpDnsRing where
  slots := fun _ => ⟨0, 0, UdpDns.emptyHost⟩
  head := 0
  tail := 0
  count := 0
  head_lt := by decide
  tail_eq := rfl
  count_le := by decide

namespace RingDns

def init : RingDns := ⟨UdpDns.init, .zero⟩

def unrolled (s : RingDns) : UdpDns := { s.dns with queue := s.ring.contents }

/-- `udp_dns_enqueue` and its caller. -/
def enqueueStep (s : RingDns) (w : Fin udpWorkerCount) (u : ℕ) (c : RouteCall)
    (ji : Fin udpDnsJobCount) : RingDns :=
  match s.ring.enqueue ⟨w, ji, c.host⟩ with
  | some ring => ⟨s.dns.setPc w (.hold u c (some ji)), ring⟩
  | none =>
      ⟨(s.dns.setJob (w, ji) { s.dns.jobs (w, ji) with state := .free }).setPc w (.hold u c none),
        s.ring⟩

/-- The first section of the loop of `udp_dns_resolver_thread`. -/
def dequeueStep (s : RingDns) (r : Fin udpDnsResolverThreads) : Option RingDns :=
  s.ring.dequeue.map fun (q, ring) => ⟨s.dns.setResolver r (.resolve q), ring⟩

end RingDns

open RingDns in
def ringStep (inetPton : InetPton) (s : RingDns) : UdpDnsEvent → Option RingDns
  | .worker w now =>
      match s.dns.pc w with
      | .enqueue u c ji => some (s.enqueueStep w u c ji)
      | _ => (s.dns.workerStep inetPton w now).map fun t => ⟨t, s.ring⟩
  | .resolver r answer =>
      match s.dns.resolver r with
      | .wait => s.dequeueStep r
      | _ => (s.dns.resolverStep r answer).map fun t => ⟨t, s.ring⟩
  | .restart =>
      if (∀ w, (s.dns.pc w).isIdle = true) ∧ (∀ r, (s.dns.resolver r).isWaiting = true) ∧
          s.ring.count = 0 then
        some ⟨s.dns.restarted, s.ring.clear⟩
      else none
  | e => (UdpDns.step inetPton s.dns e).map fun t => ⟨t, s.ring⟩

/-! ### The array does what the list does -/

namespace UdpDns

variable (s : UdpDns) (l : List UdpDnsReq)

def withQueue : UdpDns := { s with queue := l }

theorem udpSend5g_withQueue (u : ℕ) (c : RouteCall) (payload : List UInt8) (dst : SockAddr) :
    (s.withQueue l).udpSend5g u c payload dst = (s.udpSend5g u c payload dst).withQueue l := by
  rw [udpSend5g, udpSend5g, apply_ite (fun t => withQueue t l)]
  rfl

theorem takeSlot_withQueue {host : Host} {take : UdpDns → ℕ → UdpDnsPend → UdpDns}
    (htake : ∀ s u p, take (withQueue s l) u p = (take s u p).withQueue l)
    (slot : ℕ × Fin udpDnsPendSlots) :
    takeSlot host take (s.withQueue l) slot = (takeSlot host take s slot).withQueue l := by
  have hsession : (s.withQueue l).session = s.session := rfl
  have hpend : (s.withQueue l).pend = s.pend := rfl
  simp only [takeSlot, hsession, hpend, htake]
  split <;> rfl

theorem foldl_takeSlot_withQueue {host : Host} {take : UdpDns → ℕ → UdpDnsPend → UdpDns}
    (htake : ∀ s u p, take (withQueue s l) u p = (take s u p).withQueue l)
    (slots : List (ℕ × Fin udpDnsPendSlots)) :
    slots.foldl (takeSlot host take) (s.withQueue l) =
      (slots.foldl (takeSlot host take) s).withQueue l := by
  induction slots generalizing s with
  | nil => rfl
  | cons slot rest ih =>
      rw [List.foldl_cons, List.foldl_cons, takeSlot_withQueue s l htake, ih]

theorem udpDnsFlushPending_withQueue (w : Fin udpWorkerCount) (host : Host) (dst : SockAddr) :
    (s.withQueue l).udpDnsFlushPending w host dst =
      (s.udpDnsFlushPending w host dst).withQueue l := by
  refine foldl_takeSlot_withQueue s l (fun s u p => ?_) _
  rw [apply_ite (fun t => withQueue t l), ← udpSend5g_withQueue]
  rfl

theorem udpDnsDropPending_withQueue (w : Fin udpWorkerCount) (host : Host) :
    (s.withQueue l).udpDnsDropPending w host = (s.udpDnsDropPending w host).withQueue l :=
  foldl_takeSlot_withQueue s l (fun _ _ _ => rfl) _

theorem holdFrame_withQueue (u : ℕ) (c : RouteCall) :
    (s.withQueue l).holdFrame u c = (s.holdFrame u c).withQueue l := by
  unfold holdFrame
  split
  case isFalse => rfl
  case isTrue =>
    have hpend : (s.withQueue l).pend = s.pend := rfl
    rw [hpend]
    cases udpDnsPendFreeSlot fun k => s.pend (u, k) <;> rfl

variable {s l}

/-- Away from `udp_dns_enqueue` a worker does not look at the queue. -/
theorem workerStep_withQueue {inetPton : InetPton} {w : Fin udpWorkerCount} {now : ℕ}
    (h : ∀ u c ji, s.pc w ≠ .enqueue u c ji) :
    (s.withQueue l).workerStep inetPton w now =
      (s.workerStep inetPton w now).map fun t => t.withQueue l := by
  have hpc : (s.withQueue l).pc w = s.pc w := rfl
  unfold workerStep
  rw [hpc]
  cases hold : s.pc w with
  | enqueue u c ji => exact absurd hold (h u c ji)
  | idle => rfl
  | route u c =>
      have hcache : (s.withQueue l).cache = s.cache := rfl
      simp only [udpSend5g_withQueue, hcache]
      repeat' split
      all_goals rfl
  | defer u c =>
      have hjobs : (s.withQueue l).jobs = s.jobs := rfl
      simp only [hjobs]
      repeat' split
      all_goals rfl
  | hold u c ji =>
      cases ji with
      | none => rfl
      | some ji =>
          simp only [holdFrame_withQueue]
          rfl
  | drain i now' =>
      have hjobs : (s.withQueue l).jobs = s.jobs := rfl
      simp only [hjobs]
      by_cases hi : i < udpDnsJobCount
      · rw [dif_pos hi, dif_pos hi]
        cases (s.jobs (w, ⟨i, hi⟩)).state with
        | doneOk =>
            dsimp only
            cases sockaddrFromIpPort inetPton (s.jobs (w, ⟨i, hi⟩)).ip
                (s.jobs (w, ⟨i, hi⟩)).port <;> rfl
        | _ => rfl
      · rw [dif_neg hi, dif_neg hi]
        rfl
  | put i dst now' => rfl
  | flush i dst now' =>
      simp only [udpDnsFlushPending_withQueue]
      rfl
  | drop i now' =>
      simp only [udpDnsDropPending_withQueue]
      rfl
  | free i now' => rfl

theorem resolverStep_withQueue {r : Fin udpDnsResolverThreads} {answer : Option (List UInt8)}
    (h : s.resolver r ≠ .wait) :
    (s.withQueue l).resolverStep r answer =
      (s.resolverStep r answer).map fun t => t.withQueue l := by
  have hres : (s.withQueue l).resolver r = s.resolver r := rfl
  unfold resolverStep
  rw [hres]
  cases hold : s.resolver r with
  | wait => exact absurd hold h
  | resolve q => cases answer <;> rfl
  | write q ip => rfl
  | publish q ok => rfl
  | wake q => rfl

end UdpDns

open UdpDns

variable {inetPton : InetPton}

theorem RingDns.unrolled_enqueueStep (s : RingDns) {w : Fin udpWorkerCount} {u now : ℕ}
    {c : RouteCall} {ji : Fin udpDnsJobCount} (h : s.dns.pc w = .enqueue u c ji) :
    some (s.enqueueStep w u c ji).unrolled = s.unrolled.workerStep inetPton w now := by
  have hpc : s.unrolled.pc w = .enqueue u c ji := h
  have hlength : s.unrolled.queue.length = s.ring.count := s.ring.length_contents
  rw [workerStep, hpc]
  simp only [hlength]
  cases hring : s.ring.enqueue ⟨w, ji, c.host⟩ with
  | some ring =>
      have hroom : s.ring.count < udpDnsQueueMax := by
        refine Nat.lt_of_not_le fun hfull => ?_
        rw [RingBuffer.enqueue_eq_none.mpr hfull] at hring
        cases hring
      rw [if_pos hroom, enqueueStep, hring, unrolled, RingBuffer.contents_enqueue hring]
      rfl
  | none =>
      rw [if_neg (Nat.not_lt.mpr (RingBuffer.enqueue_eq_none.mp hring)), enqueueStep, hring]
      rfl

theorem RingDns.unrolled_dequeueStep (s : RingDns) {r : Fin udpDnsResolverThreads}
    {answer : Option (List UInt8)} (h : s.dns.resolver r = .wait) :
    (s.dequeueStep r).map unrolled = s.unrolled.resolverStep r answer := by
  have hres : s.unrolled.resolver r = .wait := h
  rw [resolverStep, hres]
  cases hring : s.ring.dequeue with
  | none =>
      have hnil : s.unrolled.queue = [] := RingBuffer.dequeue_eq_none.mp hring
      rw [dequeueStep, hring, hnil]
      rfl
  | some p =>
      have hcons : s.unrolled.queue = p.1 :: p.2.contents := RingBuffer.contents_dequeue hring
      rw [dequeueStep, hring, hcons]
      rfl

/-- The system with the array takes the steps of the system with the list. -/
theorem ringStep_map_unrolled (s : RingDns) (e : UdpDnsEvent) :
    (ringStep inetPton s e).map RingDns.unrolled = UdpDns.step inetPton s.unrolled e := by
  have hpc : s.unrolled.pc = s.dns.pc := rfl
  have hlist : s.unrolled.connList = s.dns.connList := rfl
  have hsession : s.unrolled.session = s.dns.session := rfl
  have hwoken : s.unrolled.woken = s.dns.woken := rfl
  have hres : s.unrolled.resolver = s.dns.resolver := rfl
  cases e with
  | openSession w remoteOpen => rfl
  | closeSession w u =>
      simp only [ringStep, UdpDns.step, hpc, hlist, hsession]
      by_cases h : (s.dns.pc w).serves = some u
      · simp only [if_pos h]
        rfl
      · simp only [if_neg h]
        rfl
  | frame w u body =>
      simp only [ringStep, UdpDns.step, hpc, hlist]
      by_cases h : (s.dns.pc w).isIdle = true ∧ u ∈ s.dns.connList w
      · simp only [if_pos h]
        cases routeOf body <;> rfl
      · simp only [if_neg h]
        rfl
  | wake w now =>
      simp only [ringStep, UdpDns.step, hpc, hwoken]
      by_cases h : (s.dns.pc w).isIdle = true ∧ s.dns.woken w = true
      · simp only [if_pos h]
        rfl
      · simp only [if_neg h]
        rfl
  | worker w now =>
      cases hw : s.dns.pc w with
      | enqueue u c ji =>
          simp only [ringStep, hw, UdpDns.step]
          exact s.unrolled_enqueueStep hw
      | _ =>
          simp only [ringStep, hw, UdpDns.step, Option.map_map]
          exact (workerStep_withQueue (l := s.ring.contents) (by rw [hw]; rintro _ _ _ ⟨⟩)).symm
  | resolver r answer =>
      cases hr : s.dns.resolver r with
      | wait =>
          simp only [ringStep, hr, UdpDns.step]
          exact s.unrolled_dequeueStep hr
      | _ =>
          simp only [ringStep, hr, UdpDns.step, Option.map_map]
          exact (resolverStep_withQueue (l := s.ring.contents) (by rw [hr]; rintro ⟨⟩)).symm
  | restart =>
      have hempty : s.unrolled.queue.isEmpty = true ↔ s.ring.count = 0 := by
        rw [List.isEmpty_iff_length_eq_zero, ← s.ring.length_contents]
        rfl
      simp only [ringStep, UdpDns.step, Quiet, hempty, hpc, hres]
      by_cases h : (∀ w, (s.dns.pc w).isIdle = true) ∧
          (∀ r, (s.dns.resolver r).isWaiting = true) ∧ s.ring.count = 0
      · have hnil : s.unrolled.queue = [] := List.isEmpty_iff.mp (hempty.mpr h.2.2)
        simp only [if_pos h, hnil]
        rfl
      · simp only [if_neg h]
        rfl

theorem unrolled_step {s t : RingDns} {e : UdpDnsEvent} (h : ringStep inetPton s e = some t) :
    UdpDns.step inetPton s.unrolled e = some t.unrolled := by
  rw [← ringStep_map_unrolled, h]
  rfl

end FiveGProxy
