import FiveGProxy.UdpDns.Pending
import Mathlib.Algebra.BigOperators.Group.Finset.Basic
import Mathlib.Data.Finset.Card
import Mathlib.Order.CompleteLattice.Finset

/-!
# Where the deferred frames go

A frame that is passed to `udp_dns_defer` is dropped at once, or held and later replayed, dropped or
lost; each of these has a counter. A frame that is held by a session when the session is closed has
none: the loops that count go through the list of the sessions, and the session is no longer in it.
-/

namespace FiveGProxy

open Steps

/-- The counters `g_dns_st_replay`, `g_dns_st_drop` and `g_dns_st_lost`, and the number of calls of
`udp_dns_defer`, all since the last start of the engine. -/
structure FrameCounts where
  deferred : ℕ
  replay : ℕ
  drop : ℕ
  lost : ℕ
  deriving DecidableEq

def FrameCounts.zero : FrameCounts := ⟨0, 0, 0, 0⟩

/-- The worker is in a call of `udp_dns_defer` that has been counted. -/
def UdpWorkerPc.deferring : UdpWorkerPc → Bool
  | enqueue .. | hold .. => true
  | _ => false

namespace UdpDns

/-! ### The counters -/

/-- How many frames the loops of `udp_dns_flush_pending` and `udp_dns_drop_pending` take from
sessions with `p`. -/
def taken (host : Host) (take : UdpDns → ℕ → UdpDnsPend → UdpDns) (p : UdpSession → Bool) :
    List (ℕ × Fin udpDnsPendSlots) → UdpDns → ℕ
  | [], _ => 0
  | slot :: rest, s =>
      (if ((s.session slot.1).magic = true ∧ (s.pend slot).used = true ∧
          (s.pend slot).host = host) ∧ p (s.session slot.1) = true then 1 else 0) +
        taken host take p rest (takeSlot host take s slot)

/-- What `udp_dns_flush_pending` does with one frame. -/
def flushTake (dst : SockAddr) (s : UdpDns) (u : ℕ) (p : UdpDnsPend) : UdpDns :=
  if (s.session u).closed = true ∨ (s.session u).remoteOpen = false then s
  else s.udpSend5g u p.origin p.payload dst

def gone (v : UdpSession) : Bool := v.closed || !v.remoteOpen

/-- The counters after a step that is taken from `s`. -/
def countFrames (s : UdpDns) (e : UdpDnsEvent) (n : FrameCounts) : FrameCounts :=
  match e with
  | .worker w _ =>
      match s.pc w with
      | .defer _ _ => { n with deferred := n.deferred + 1 }
      | .hold u c (some _) =>
          if udpDnsHoldOk c.payload.length = true ∧
              (udpDnsPendFreeSlot fun k => s.pend (u, k)).isSome = true then n
          else { n with drop := n.drop + 1 }
      | .hold _ _ none => { n with drop := n.drop + 1 }
      | .flush i dst _ =>
          let host := (s.jobs (w, i)).host
          { n with
            lost := n.lost + taken host (flushTake dst) gone (s.pendSlots w) s
            replay := n.replay + taken host (flushTake dst) (fun v => !gone v) (s.pendSlots w) s }
      | .drop i _ =>
          { n with
            drop := n.drop +
              taken (s.jobs (w, i)).host (fun s _ _ => s) (fun _ => true) (s.pendSlots w) s }
      | _ => n
  | .restart => .zero
  | _ => n

def pendingSlots (s : UdpDns) : Finset (ℕ × Fin udpDnsPendSlots) :=
  (Finset.univ.biUnion fun w => (s.pendSlots w).toFinset).filter fun slot => (s.pend slot).used = true

/-- The calls of `udp_dns_defer` that have not returned. -/
def deferring (s : UdpDns) : ℕ := ∑ w, (s.pc w).deferring.toNat

/-- Every frame that was passed to `udp_dns_defer` is counted, or still held by a linked session, or
its call has not returned. -/
def Conserved (s : UdpDns) (n : FrameCounts) : Prop :=
  n.deferred = n.replay + n.drop + n.lost + s.pendingSlots.card + s.deferring

def ClosesEmpty (s : UdpDns) : UdpDnsEvent → Prop
  | .closeSession w u => u ∈ s.connList w → ∀ k, (s.pend (u, k)).used = false
  | _ => True

instance (s : UdpDns) (e : UdpDnsEvent) : Decidable (s.ClosesEmpty e) := by
  cases e <;> unfold ClosesEmpty <;> infer_instance

variable {s t : UdpDns} {n : FrameCounts} {inetPton : InetPton}

/-! ### The used entries -/

theorem mem_pendingSlots {slot : ℕ × Fin udpDnsPendSlots} :
    slot ∈ s.pendingSlots ↔ (∃ w, slot.1 ∈ s.connList w) ∧ (s.pend slot).used = true := by
  simp [pendingSlots, mem_pendSlots]

theorem pendingSlots_congr (hlist : t.connList = s.connList) (hpend : t.pend = s.pend) :
    t.pendingSlots = s.pendingSlots := by
  ext slot
  rw [mem_pendingSlots, mem_pendingSlots, hlist, hpend]

theorem pendingSlots_clear {slot : ℕ × Fin udpDnsPendSlots} (hlist : t.connList = s.connList)
    (hpend : t.pend = Function.update s.pend slot { s.pend slot with used := false }) :
    t.pendingSlots = s.pendingSlots.erase slot := by
  ext slot'
  rw [Finset.mem_erase, mem_pendingSlots, mem_pendingSlots, hlist, hpend]
  by_cases hslot : slot' = slot
  · subst hslot
    simp
  · simp [hslot]

theorem pendingSlots_hold {u : ℕ} {k : Fin udpDnsPendSlots} {p : UdpDnsPend} {w : Fin udpWorkerCount}
    (hu : u ∈ s.connList w) (hp : p.used = true) (hlist : t.connList = s.connList)
    (hpend : t.pend = Function.update s.pend (u, k) p) :
    t.pendingSlots = insert (u, k) s.pendingSlots := by
  ext slot
  rw [Finset.mem_insert, mem_pendingSlots, mem_pendingSlots, hlist, hpend]
  by_cases hslot : slot = (u, k)
  · subst hslot
    simpa [hp] using ⟨w, hu⟩
  · simp [hslot]

theorem card_foldl_takeSlot (host : Host) {dst : Option SockAddr}
    {take : UdpDns → ℕ → UdpDnsPend → UdpDns} (htake : Takes dst take)
    (slots : List (ℕ × Fin udpDnsPendSlots)) (s : UdpDns)
    (hlinked : ∀ slot ∈ slots, ∃ w, slot.1 ∈ s.connList w) :
    (slots.foldl (takeSlot host take) s).pendingSlots.card +
      taken host take (fun _ => true) slots s = s.pendingSlots.card := by
  induction slots generalizing s with
  | nil => rfl
  | cons slot rest ih =>
      rw [List.foldl_cons, taken]
      by_cases hmatch : (s.session slot.1).magic = true ∧ (s.pend slot).used = true ∧
          (s.pend slot).host = host
      · obtain ⟨sent, htaken, -⟩ := htake s slot.1 (s.pend slot)
        have hhead : takeSlot host take s slot =
            { s with
              sent := sent
              pend := Function.update s.pend slot { s.pend slot with used := false } } := by
          rw [takeSlot, if_pos hmatch, htaken]
        have hmem : slot ∈ s.pendingSlots :=
          mem_pendingSlots.mpr ⟨hlinked slot List.mem_cons_self, hmatch.2.1⟩
        have hcard : (takeSlot host take s slot).pendingSlots.card + 1 = s.pendingSlots.card := by
          have herase : (takeSlot host take s slot).pendingSlots = s.pendingSlots.erase slot := by
            rw [hhead]
            exact pendingSlots_clear rfl rfl
          rw [herase, Finset.card_erase_add_one hmem]
        have hrest := ih (takeSlot host take s slot) fun slot' hslot' => by
          rw [hhead]
          exact hlinked slot' (List.mem_cons_of_mem _ hslot')
        rw [if_pos ⟨hmatch, rfl⟩]
        omega
      · have hhead : takeSlot host take s slot = s := if_neg hmatch
        rw [if_neg fun h => hmatch h.1, hhead, Nat.zero_add]
        exact ih s fun slot' hslot' => hlinked slot' (List.mem_cons_of_mem _ hslot')

theorem taken_add_taken_not (host : Host) (take : UdpDns → ℕ → UdpDnsPend → UdpDns)
    (p : UdpSession → Bool) (slots : List (ℕ × Fin udpDnsPendSlots)) (s : UdpDns) :
    taken host take p slots s + taken host take (fun v => !p v) slots s =
      taken host take (fun _ => true) slots s := by
  induction slots generalizing s with
  | nil => rfl
  | cons slot rest ih =>
      have hrest := ih (takeSlot host take s slot)
      simp only [taken]
      by_cases hmatch : (s.session slot.1).magic = true ∧ (s.pend slot).used = true ∧
          (s.pend slot).host = host
      · by_cases hp : p (s.session slot.1) = true
        · simp only [hmatch, hp, true_and, and_true, if_true, Bool.not_true, Bool.false_eq_true, if_false]
          omega
        · rw [Bool.not_eq_true] at hp
          simp only [hmatch, hp, and_true, if_true, Bool.not_false, Bool.false_eq_true, and_false,
            if_false]
          omega
      · simp only [hmatch, false_and, if_false]
        omega

theorem linked_of_mem_pendSlots {w : Fin udpWorkerCount} :
    ∀ slot ∈ s.pendSlots w, ∃ w, slot.1 ∈ s.connList w :=
  fun _ hslot => ⟨w, mem_pendSlots.mp hslot⟩

/-! ### The calls -/

theorem deferring_setPc {x : UdpDns} {w : Fin udpWorkerCount} {old : UdpWorkerPc} (pc : UdpWorkerPc)
    (hx : x.pc = s.pc) (hold : s.pc w = old) :
    (x.setPc w pc).deferring + old.deferring.toNat = s.deferring + pc.deferring.toNat := by
  have hsplit : ∀ y : UdpDns, y.deferring =
      (y.pc w).deferring.toNat + ∑ v ∈ Finset.univ.erase w, (y.pc v).deferring.toNat :=
    fun y => (Finset.add_sum_erase _ _ (Finset.mem_univ w)).symm
  have hothers : ∑ v ∈ Finset.univ.erase w, ((x.setPc w pc).pc v).deferring.toNat =
      ∑ v ∈ Finset.univ.erase w, (s.pc v).deferring.toNat := by
    apply Finset.sum_congr rfl
    intro v hv
    simp only [setPc, Function.update_of_ne (Finset.ne_of_mem_erase hv), hx]
  have hself : (x.setPc w pc).pc w = pc := by simp only [setPc, Function.update_self]
  rw [hsplit (x.setPc w pc), hsplit s, hothers, hold, hself]
  omega

/-! ### Sessions come and go -/

/-- The sessions of the lists are listed once, and a worker serves a session of its list. -/
structure Linked (s : UdpDns) : Prop where
  nodup : ∀ w, (s.connList w).Nodup
  serving : ∀ w u, (s.pc w).serves = some u → u ∈ s.connList w

theorem Linked.init : Linked UdpDns.init where
  nodup := fun _ => List.nodup_nil
  serving := nofun

theorem Linked.move {x : UdpDns} (h : Linked s) {w : Fin udpWorkerCount} {old pc : UdpWorkerPc}
    (hold : s.pc w = old) (hlist : x.connList = s.connList) (hpc : x.pc = s.pc)
    (hserves : ∀ u, pc.serves = some u → old.serves = some u ∨ u ∈ s.connList w) :
    Linked (x.setPc w pc) where
  nodup := by
    intro v
    simp only [setPc, hlist]
    exact h.nodup v
  serving := by
    intro v u hu
    simp only [setPc, hlist, hpc] at hu ⊢
    by_cases hv : v = w
    · subst hv
      rw [Function.update_self] at hu
      exact (hserves u hu).elim (fun hold' => h.serving v u (hold ▸ hold')) id
    · rw [Function.update_of_ne hv] at hu
      exact h.serving v u hu

theorem Linked.link (h : Linked s) (hattached : Attached s) (w : Fin udpWorkerCount)
    (remoteOpen : Bool) : Linked (s.link w remoteOpen) where
  nodup := by
    intro v
    simp only [UdpDns.link]
    by_cases hv : v = w
    · subst hv
      rw [Function.update_self]
      exact List.nodup_cons.mpr
        ⟨fun hmem => Nat.lt_irrefl _ (hattached.listed v _ hmem).1, h.nodup v⟩
    · rw [Function.update_of_ne hv]
      exact h.nodup v
  serving := by
    intro v u hu
    simp only [UdpDns.link]
    by_cases hv : v = w
    · subst hv
      rw [Function.update_self]
      exact List.mem_cons_of_mem _ (h.serving v u hu)
    · rw [Function.update_of_ne hv]
      exact h.serving v u hu

theorem Linked.unlink (h : Linked s) {w : Fin udpWorkerCount} {u : ℕ}
    (hpc : (s.pc w).serves ≠ some u) : Linked (s.unlink w u) where
  nodup := by
    intro v
    simp only [UdpDns.unlink]
    by_cases hv : v = w
    · subst hv
      rw [Function.update_self]
      exact (h.nodup v).erase u
    · rw [Function.update_of_ne hv]
      exact h.nodup v
  serving := by
    intro v u' hu'
    simp only [UdpDns.unlink]
    by_cases hv : v = w
    · subst hv
      rw [Function.update_self]
      refine (List.mem_erase_of_ne ?_).mpr (h.serving v u' hu')
      rintro rfl
      exact hpc hu'
    · rw [Function.update_of_ne hv]
      exact h.serving v u' hu'

theorem Linked.step {e : UdpDnsEvent} (h : Linked s) (hattached : Attached s)
    (ht : Transition inetPton s e t) : Linked t := by
  cases ht with
  | openSession w remoteOpen => exact h.link hattached w remoteOpen
  | closeSession w u hpc => exact h.unlink hpc
  | frame w u body c hpc hu =>
      refine h.move hpc rfl rfl ?_
      rintro _ ⟨⟩
      exact Or.inr hu
  | miss w now u c hpc | found w now u c ji hpc | jobsFull w now u c hpc | opened w now u c ji hpc
  | enqueued w now u c ji hpc | rolledBack w now u c ji hpc =>
      exact h.move hpc rfl rfl fun _ hu => Or.inl hu
  | wake w now hpc | unrouted w now u c hpc | dropped w now u c hpc | skip w now i now' hpc
  | drained w now i now' hpc | answer w now i now' dst hpc | noAnswer w now i now' hpc
  | put w now i dst now' hpc | free w now i now' hpc =>
      exact h.move hpc rfl rfl (by rintro _ ⟨⟩)
  | literal w now u c dst hpc | hit w now u c dst hpc =>
      have hsame := udpSend5g_same s u c c.payload dst
      exact h.move hpc hsame.connList hsame.pc (by rintro _ ⟨⟩)
  | held w now u c ji hpc =>
      exact h.move hpc (holdFrame_same s u c).connList (holdFrame_same s u c).pc (by rintro _ ⟨⟩)
  | flush w now i dst now' hpc =>
      have hsame := (s.udpDnsFlushPending_clears w (s.jobs (w, i)).host dst).same
      exact h.move hpc hsame.connList hsame.pc (by rintro _ ⟨⟩)
  | drop w now i now' hpc =>
      have hsame := (s.udpDnsDropPending_clears w (s.jobs (w, i)).host).same
      exact h.move hpc hsame.connList hsame.pc (by rintro _ ⟨⟩)
  | take | resolved | refused | unresolved | write | publish | wakeWorker =>
      exact ⟨h.nodup, h.serving⟩
  | restart hquiet =>
      refine ⟨fun _ => List.nodup_nil, fun w u hu => ?_⟩
      have hidle : s.pc w = .idle := UdpWorkerPc.eq_idle (hquiet.1 w)
      simp [UdpDns.restarted, hidle, UdpWorkerPc.serves] at hu

theorem pendingSlots_link (h : Attached s) (w : Fin udpWorkerCount) (remoteOpen : Bool) :
    (s.link w remoteOpen).pendingSlots = s.pendingSlots := by
  ext ⟨u, k⟩
  rw [mem_pendingSlots, mem_pendingSlots]
  by_cases hu : u = s.nSessions
  · subst hu
    refine iff_of_false (fun hnew => ?_) fun hold => ?_
    · simp [UdpDns.link, emptyPend] at hnew
    · obtain ⟨⟨v, hv⟩, -⟩ := hold
      exact Nat.lt_irrefl _ (h.listed v _ hv).1
  · have hmem : ∀ v, u ∈ (s.link w remoteOpen).connList v ↔ u ∈ s.connList v := by
      intro v
      by_cases hv : v = w
      · subst hv
        simp [UdpDns.link, hu]
      · simp [UdpDns.link, hv]
    simp only [hmem]
    simp only [UdpDns.link, if_neg hu]

/-- A linked session takes what it holds with it when it is closed. -/
theorem pendingSlots_unlink (h : Linked s) (hattached : Attached s) {w : Fin udpWorkerCount} {u : ℕ}
    (hu : u ∈ s.connList w) :
    (s.unlink w u).pendingSlots = s.pendingSlots.filter fun slot => slot.1 ≠ u := by
  ext ⟨u', k⟩
  rw [Finset.mem_filter, mem_pendingSlots, mem_pendingSlots]
  by_cases hne : u' = u
  · subst hne
    refine iff_of_false (fun hnew => ?_) fun hold => hold.2 rfl
    obtain ⟨⟨v, hv⟩, -⟩ := hnew
    by_cases hvw : v = w
    · subst hvw
      simp only [UdpDns.unlink, Function.update_self] at hv
      exact (h.nodup v).not_mem_erase hv
    · simp only [UdpDns.unlink, Function.update_of_ne hvw] at hv
      exact hvw ((hattached.listed v u' hv).2.1.symm.trans (hattached.listed w u' hu).2.1)
  · have hmem : ∀ v, u' ∈ (s.unlink w u).connList v ↔ u' ∈ s.connList v := by
      intro v
      by_cases hv : v = w
      · subst hv
        simp [UdpDns.unlink, List.mem_erase_of_ne hne]
      · simp [UdpDns.unlink, hv]
    simp only [hmem, ne_eq, hne, not_false_eq_true, and_true]
    rfl

theorem pendingSlots_unlink_of_notMem {w : Fin udpWorkerCount} {u : ℕ} (hu : u ∉ s.connList w) :
    (s.unlink w u).pendingSlots = s.pendingSlots := by
  have hlist : (s.unlink w u).connList = s.connList := by
    simp only [UdpDns.unlink, List.erase_of_not_mem hu, Function.update_eq_self]
  exact pendingSlots_congr hlist rfl

/-! ### The law -/

def accounted (s : UdpDns) (n : FrameCounts) : ℕ :=
  n.replay + n.drop + n.lost + s.pendingSlots.card + s.deferring

def abandoned (s : UdpDns) : UdpDnsEvent → Finset (ℕ × Fin udpDnsPendSlots)
  | .closeSession w u => if u ∈ s.connList w then s.pendingSlots.filter fun slot => slot.1 = u else ∅
  | _ => ∅

theorem abandoned_eq_empty_iff {e : UdpDnsEvent} : s.abandoned e = ∅ ↔ s.ClosesEmpty e := by
  cases e with
  | closeSession w u =>
      rw [abandoned, ClosesEmpty]
      split
      case isTrue hu =>
        rw [Finset.filter_eq_empty_iff]
        constructor
        · intro h _ k
          rw [← Bool.not_eq_true]
          exact fun hused => h (mem_pendingSlots.mpr ⟨⟨w, hu⟩, hused⟩) rfl
        · rintro h ⟨u', k⟩ hmem rfl
          exact absurd (mem_pendingSlots.mp hmem).2 (by simp [h hu k])
      case isFalse hu => exact iff_of_true rfl fun hmem => absurd hmem hu
  | _ => exact iff_of_true rfl trivial

/-- A step balances: every frame that comes in is accounted for, but those that go with a closed
session. -/
def Balances (s t : UdpDns) (n n' : FrameCounts) (lost : ℕ) : Prop :=
  n'.deferred + s.accounted n = n.deferred + t.accounted n' + lost

theorem balances_move {x : UdpDns} {n' : FrameCounts} {w : Fin udpWorkerCount}
    {old pc : UdpWorkerPc} (hold : s.pc w = old) (hx : x.pc = s.pc) (hlist : x.connList = s.connList)
    (hpend : x.pend = s.pend)
    (hn : n'.deferred + (n.replay + n.drop + n.lost) + old.deferring.toNat =
      n.deferred + (n'.replay + n'.drop + n'.lost) + pc.deferring.toNat) :
    Balances s (x.setPc w pc) n n' 0 := by
  have hdefer := deferring_setPc pc hx hold
  have hslots : (x.setPc w pc).pendingSlots = s.pendingSlots := pendingSlots_congr hlist hpend
  unfold Balances accounted
  rw [hslots]
  omega

theorem balances_take {x : UdpDns} {n' : FrameCounts} {w : Fin udpWorkerCount}
    {old pc : UdpWorkerPc} {k : ℕ} (hold : s.pc w = old) (hx : x.pc = s.pc)
    (hcard : x.pendingSlots.card + k = s.pendingSlots.card) (hn : n'.deferred = n.deferred)
    (hk : n'.replay + n'.drop + n'.lost = n.replay + n.drop + n.lost + k)
    (hquiet : old.deferring = false ∧ pc.deferring = false) : Balances s (x.setPc w pc) n n' 0 := by
  have hdefer := deferring_setPc pc hx hold
  have hslots : (x.setPc w pc).pendingSlots = x.pendingSlots := pendingSlots_congr rfl rfl
  rw [hquiet.1, hquiet.2] at hdefer
  unfold Balances accounted
  rw [hslots]
  omega

/-- `udp_dns_defer` returns. -/
theorem balances_held (h : Linked s) {w : Fin udpWorkerCount} {now u : ℕ} {c : RouteCall}
    {ji : Fin udpDnsJobCount} (hpc : s.pc w = .hold u c (some ji)) :
    Balances s ((s.holdFrame u c).setPc w .idle) n (s.countFrames (.worker w now) n) 0 := by
  have hu : u ∈ s.connList w := h.serving w u (by rw [hpc]; rfl)
  simp only [countFrames, hpc]
  unfold holdFrame
  cases hok : udpDnsHoldOk c.payload.length with
  | false =>
      simp only [Bool.false_eq_true, false_and, if_false]
      exact balances_move hpc rfl rfl rfl (by simp [UdpWorkerPc.deferring]; omega)
  | true =>
      cases hslot : udpDnsPendFreeSlot fun k => s.pend (u, k) with
      | none =>
          simp only [Option.isSome_none, Bool.false_eq_true, and_false, if_true, if_false]
          exact balances_move hpc rfl rfl rfl (by simp [UdpWorkerPc.deferring]; omega)
      | some k =>
          have hfree : (s.pend (u, k)).used = false := by simpa using List.find?_some hslot
          have hnew : (u, k) ∉ s.pendingSlots := fun hmem => by
            rw [mem_pendingSlots, hfree] at hmem
            exact absurd hmem.2 nofun
          simp only [Option.isSome_some, and_true, if_true]
          set x : UdpDns :=
            { s with pend := Function.update s.pend (u, k) ⟨true, c.host, c.port, c.payload, c⟩ }
          have hcard : (x.setPc w .idle).pendingSlots.card = s.pendingSlots.card + 1 := by
            have hslots : (x.setPc w .idle).pendingSlots = insert (u, k) s.pendingSlots :=
              pendingSlots_hold hu rfl rfl rfl
            rw [hslots, Finset.card_insert_of_notMem hnew]
          have hdefer : (x.setPc w .idle).deferring + 1 = s.deferring + 0 :=
            deferring_setPc .idle rfl hpc
          unfold Balances accounted
          omega

theorem balances_unlink (h : Linked s) (hattached : Attached s) (w : Fin udpWorkerCount) (u : ℕ) :
    Balances s (s.unlink w u) n n (s.abandoned (.closeSession w u)).card := by
  have hdefer : (s.unlink w u).deferring = s.deferring := rfl
  have hcard : (s.unlink w u).pendingSlots.card + (s.abandoned (.closeSession w u)).card =
      s.pendingSlots.card := by
    rw [abandoned]
    split
    case isTrue hu =>
      rw [pendingSlots_unlink h hattached hu, Nat.add_comm]
      exact Finset.card_filter_add_card_filter_not fun slot : ℕ × Fin udpDnsPendSlots => slot.1 = u
    case isFalse hu => rw [pendingSlots_unlink_of_notMem hu, Finset.card_empty, Nat.add_zero]
  unfold Balances accounted
  omega

theorem balances_flush {w : Fin udpWorkerCount} {now now' : ℕ} {i : Fin udpDnsJobCount}
    {dst : SockAddr} (hpc : s.pc w = .flush i dst now') :
    Balances s ((s.udpDnsFlushPending w (s.jobs (w, i)).host dst).setPc w (.free i now')) n
      (s.countFrames (.worker w now) n) 0 := by
  have hclears := (s.udpDnsFlushPending_clears w (s.jobs (w, i)).host dst).same
  have hcard := card_foldl_takeSlot (s.jobs (w, i)).host (takes_flush dst)
    (s.pendSlots w) s linked_of_mem_pendSlots
  have hsplit := taken_add_taken_not (s.jobs (w, i)).host (flushTake dst) gone (s.pendSlots w) s
  simp only [countFrames, hpc]
  refine balances_take hpc hclears.pc hcard rfl ?_ ⟨rfl, rfl⟩
  change _ = _ + taken _ (flushTake dst) (fun _ => true) _ _
  dsimp only
  omega

theorem balances_drop {w : Fin udpWorkerCount} {now now' : ℕ} {i : Fin udpDnsJobCount}
    (hpc : s.pc w = .drop i now') :
    Balances s ((s.udpDnsDropPending w (s.jobs (w, i)).host).setPc w (.free i now')) n
      (s.countFrames (.worker w now) n) 0 := by
  have hclears := (s.udpDnsDropPending_clears w (s.jobs (w, i)).host).same
  have hcard := card_foldl_takeSlot (s.jobs (w, i)).host takes_drop (s.pendSlots w) s
    linked_of_mem_pendSlots
  simp only [countFrames, hpc]
  refine balances_take hpc hclears.pc hcard rfl ?_ ⟨rfl, rfl⟩
  dsimp only
  omega

theorem balances_step {e : UdpDnsEvent} (h : Linked s) (hattached : Attached s)
    (ht : Transition inetPton s e t) (he : e ≠ .restart) :
    Balances s t n (s.countFrames e n) (s.abandoned e).card := by
  cases ht with
  | restart => exact absurd rfl he
  | openSession w remoteOpen =>
      unfold Balances accounted
      rw [pendingSlots_link hattached]
      rfl
  | closeSession w u => exact balances_unlink h hattached w u
  | held w now u c ji hpc => exact balances_held h hpc
  | flush w now i dst now' hpc => exact balances_flush hpc
  | drop w now i now' hpc => exact balances_drop hpc
  | literal w now u c dst hpc | hit w now u c dst hpc =>
      have hsame := udpSend5g_same s u c c.payload dst
      have hpend : (s.udpSend5g u c c.payload dst).pend = s.pend := by
        rcases udpSend5g_cases s u c c.payload dst with heq | ⟨-, heq⟩ <;> rw [heq]
      simp only [countFrames, hpc]
      exact balances_move hpc hsame.pc hsame.connList hpend rfl
  | frame w u body c hpc | wake w now hpc => exact balances_move hpc rfl rfl rfl rfl
  | found w now u c ji hpc | opened w now u c ji hpc | jobsFull w now u c hpc =>
      -- the frame has been deferred and the call is still to hold it or drop it
      simp only [countFrames, hpc]
      refine balances_move hpc rfl rfl rfl ?_
      simp only [UdpWorkerPc.deferring, Bool.toNat_true, Bool.toNat_false]
      omega
  | dropped w now u c hpc =>
      simp only [countFrames, hpc]
      refine balances_move hpc rfl rfl rfl ?_
      simp only [UdpWorkerPc.deferring, Bool.toNat_true, Bool.toNat_false]
      omega
  | unrouted w now u c hpc | miss w now u c hpc | enqueued w now u c ji hpc
  | rolledBack w now u c ji hpc | skip w now i now' hpc | drained w now i now' hpc
  | answer w now i now' dst hpc | noAnswer w now i now' hpc | put w now i dst now' hpc
  | free w now i now' hpc =>
      simp only [countFrames, hpc]
      refine balances_move hpc rfl rfl rfl ?_
      simp [UdpWorkerPc.deferring]
  | take | resolved | refused | unresolved | write | publish | wakeWorker => rfl

/-- When the counters start, no session is linked and no worker is at a frame. -/
theorem Conserved.start (hlist : ∀ w, s.connList w = []) (hpc : ∀ w, s.pc w = .idle) :
    Conserved s .zero := by
  have hslots : s.pendingSlots = ∅ := by
    ext slot
    simp [mem_pendingSlots, hlist]
  have hdefer : s.deferring = 0 := by
    apply Finset.sum_eq_zero
    intro w _
    rw [hpc w]
    rfl
  rw [Conserved, hslots, hdefer]
  rfl

def counting (inetPton : InetPton) : Step (UdpDns × FrameCounts) UdpDnsEvent :=
  record (step inetPton) countFrames

/-- One step keeps the law exactly when it closes no session with a held frame. -/
theorem conserved_step_iff {e : UdpDnsEvent} (hlinked : Linked s) (hattached : Attached s)
    (ht : Transition inetPton s e t) (h : Conserved s n) :
    Conserved t (s.countFrames e n) ↔ s.ClosesEmpty e := by
  by_cases he : e = .restart
  · subst he
    cases ht with
    | restart hquiet =>
        exact iff_of_true (.start (fun _ => rfl) fun w => UdpWorkerPc.eq_idle (hquiet.1 w)) trivial
  · have hbalance := balances_step (n := n) hlinked hattached ht he
    rw [← abandoned_eq_empty_iff, ← Finset.card_eq_zero]
    unfold Balances accounted at hbalance
    unfold Conserved at h ⊢
    omega

end UdpDns

/-- In every run of the UDP workers, the resolvers and the sessions, all deferred frames are
accounted for in every state if and only if no session is closed while it holds a frame. -/
theorem deferred_frames_counted_iff {inetPton : InetPton} {es : List UdpDnsEvent}
    {s : UdpDns × FrameCounts}
    (hrun : run (UdpDns.counting inetPton) (UdpDns.init, .zero) es = some s) :
    (∀ bs t, bs <+: es → run (UdpDns.counting inetPton) (UdpDns.init, .zero) bs = some t →
        t.1.Conserved t.2) ↔
      Meets (UdpDns.counting inetPton) (fun t e => t.1.ClosesEmpty e) (UdpDns.init, .zero) es := by
  refine forall_prefix_iff_meets
    (P := fun p : UdpDns × FrameCounts => p.1.Served ∧ p.1.Attached ∧ p.1.Linked)
    (fun p e q h hstep => ?_) (fun p e q h hlaw hstep => ?_)
    ⟨UdpDns.Served.init, UdpDns.Attached.init, UdpDns.Linked.init⟩
    (UdpDns.Conserved.start (fun _ => rfl) fun _ => rfl) hrun
  · obtain ⟨hserved, hattached, hlinked⟩ := h
    have ht := UdpDns.transition_of_step (record_eq_some.mp hstep).1
    exact ⟨hserved.step ht, hattached.step hserved ht, hlinked.step hattached ht⟩
  · obtain ⟨-, hattached, hlinked⟩ := h
    obtain ⟨ht, hn⟩ := record_eq_some.mp hstep
    rw [← hn]
    exact UdpDns.conserved_step_iff hlinked hattached (UdpDns.transition_of_step ht) hlaw

/-- A session of the first worker sends a frame to a name that is not in the cache. -/
def deferOne : List UdpDnsEvent :=
  List.flatten [[.openSession 0 true, .frame 0 0 [0, 0, 0, 3, 1, 97, 0, 53, 7]],
    List.replicate 4 (.worker 0 1)]

/-- The name cannot be resolved; the frame is dropped and the session closed after that. -/
def deferAndDrop : List UdpDnsEvent :=
  List.flatten [deferOne, List.replicate 4 (.resolver 0 none), [.wake 0 1],
    List.replicate 3 (.worker 0 1), [.closeSession 0 0]]

theorem deferred_frames_counted_dropped :
    ∃ s, run (UdpDns.counting noPton) (UdpDns.init, .zero) deferAndDrop = some s ∧
      s.2 = ⟨1, 0, 1, 0⟩ ∧ s.1.Conserved s.2 := by
  obtain ⟨s, hrun, hcount⟩ : ∃ s, run (UdpDns.counting noPton) (UdpDns.init, .zero) deferAndDrop =
      some s ∧ s.2 = ⟨1, 0, 1, 0⟩ := exists_run_of_any (by decide +kernel)
  exact ⟨s, hrun, hcount,
    (deferred_frames_counted_iff hrun).mpr (by decide +kernel) _ s List.prefix_rfl hrun⟩

/-- The session is closed while the name is being resolved: its frame is in no counter, and nowhere
else. -/
theorem deferred_frame_uncounted :
    ∃ s, run (UdpDns.counting noPton) (UdpDns.init, .zero) (deferOne ++ [.closeSession 0 0]) = some s ∧
      s.2 = ⟨1, 0, 0, 0⟩ ∧ s.1.pendingSlots = ∅ ∧ s.1.deferring = 0 ∧ ¬s.1.Conserved s.2 := by
  obtain ⟨s, hrun, hcount, hslots, hdefer⟩ : ∃ s,
      run (UdpDns.counting noPton) (UdpDns.init, .zero) (deferOne ++ [.closeSession 0 0]) = some s ∧
        s.2 = ⟨1, 0, 0, 0⟩ ∧ s.1.pendingSlots = ∅ ∧ s.1.deferring = 0 :=
    exists_run_of_any (by decide +kernel)
  refine ⟨s, hrun, hcount, hslots, hdefer, fun h => ?_⟩
  rw [UdpDns.Conserved, hcount, hslots, hdefer] at h
  exact absurd h (by decide)

end FiveGProxy
