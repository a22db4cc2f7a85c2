import FiveGProxy.Slots.ListScan
import FiveGProxy.Slots.Tenancy

/-!
# The list of a worker in its engine

The engine keeps the list of a worker as a list of slots and leaves open what has expired when the
scan gets there; `listStep` has the pointers, and settles at the start of a scan what has expired.
`ShowsList` says that both have the same connections on the list of worker `me` and that their
threads stand at the same places. A slot that a thread fills in for the worker lags behind in the
list, where its stores are one step; slots of other workers are foreign there.
-/

namespace FiveGProxy

open Steps

namespace HandshakePc

/-- The slot that the thread fills in for worker `me`, and the stores that are left. -/
def fill (me : ℕ) : HandshakePc → Option (Ref × List Store)
  | prepare r idx _ todo => if idx = me then some (r, todo) else none
  | setup r idx _ => if idx = me then some (r, []) else none
  | _ => none

/-- The slot that the thread is about to put on the list of worker `me`, whose lock it has. -/
def enlists (me : ℕ) : HandshakePc → Option ℕ
  | locked r idx _ => if idx = me then some r.slot else none
  | _ => none

/-- The connection that the thread works on. -/
def ref : HandshakePc → Option Ref
  | idle => none
  | prepare r .. | setup r .. | lock r .. | locked r .. | add r .. | rollback r _ | stamp r
  | register r | unref r _ => some r

/-- The worker that the connection is for, as long as the thread needs to know. -/
def idx : HandshakePc → Option ℕ
  | prepare _ idx _ _ | setup _ idx _ | lock _ idx _ | locked _ idx _ | add _ idx _
  | rollback _ idx => some idx
  | idle | stamp _ | register _ | unref .. => none

end HandshakePc

/-- The connections that the worker has collected, with the one that it is unreferencing. -/
def WorkerPc.carried (pc : WorkerPc) (garbage : List Ref) : List Ref :=
  match pc with
  | .unref rest _ k => rest ++ k.keeps garbage
  | pc => pc.pending garbage

namespace EpollEngine

/-- Worker `v` has the slot on its list or in its bucket. -/
def WorkerHas (eng : EpollEngine) (v s : ℕ) : Prop :=
  s ∈ eng.connList v ∨ s ∈ ((eng.worker v).carried (eng.garbage v)).map Ref.slot

/-- What the thread that has the lock is about to put on the list. -/
def enlisting (eng : EpollEngine) (me : ℕ) : List ℕ :=
  match eng.listLock me with
  | some (.handshake h) => ((eng.handshake h).enlists me).toList
  | some (.worker _) | none => []

end EpollEngine

/-! ### What both have in common -/

/-- Where a thread that works for `me` stands. -/
inductive ThreadShown (me : ℕ) : HandshakePc → HandoffPc → Prop
  | idle : ThreadShown me .idle .idle
  | prepare (r roles todo) : ThreadShown me (.prepare r me roles todo) (.fill r)
  | setup (r roles) : ThreadShown me (.setup r me roles) (.fill r)
  | lock (r roles) : ThreadShown me (.lock r me roles) (.lock r)
  | locked (r roles) : ThreadShown me (.locked r me roles) (.add r)
  | add (r roles) : ThreadShown me (.add r me roles) (.add r)
  | rollback (r) : ThreadShown me (.rollback r me) (.rollback r)
  | stamp (r) : ThreadShown me (.stamp r) (.register r)
  | register (r) : ThreadShown me (.register r) (.register r)
  | unref (r u) : ThreadShown me (.unref r u) (.unref r u)

/-- Where the worker stands, and its bucket. -/
inductive WorkerShown : WorkerPc → List Ref → ScanPc → List Ref → Prop
  | loopTest (g u g') : WorkerShown .loopTest g (.unref [] u none) g'
  | wait (u g') : WorkerShown .wait [] (.unref [] u none) g'
  | events (batch g) : WorkerShown (.events batch) g (.events batch.length) g
  | check (raw todo seen batch g) :
      WorkerShown (.check raw todo seen batch) g (.events (batch.length + 1)) g
  | process (s batch g) : WorkerShown (.process s batch) g (.events (batch.length + 1)) g
  | fatal (s batch g) : WorkerShown (.fatal s batch) g (.events (batch.length + 1)) g
  | scanLock (g) : WorkerShown .scanLock g (.events 0) g
  | scan (curr g) : WorkerShown (.scan curr) g (.scan curr) g
  | relock (keep next g) : WorkerShown (.relock keep next) g (.relock keep next) g
  | unref (rest u g) : WorkerShown (.unref rest u .loop) g (.unref rest u none) g
  | unrefOn (rest u keep next g) :
      WorkerShown (.unref rest u (.relock keep next)) g (.unref rest u (some (keep, next))) g

/-- What a thread that works for another worker has in hands is foreign. -/
def Abroad (me : ℕ) (eng : EpollEngine) (lst : ListRun) (pc : HandshakePc) : Prop :=
  pc.idx ≠ some me ∧
    ∀ r, pc.ref = some r → eng.tenancy r.slot = r.tenancy → r.slot ∉ eng.freeSlots →
      lst.foreign r.slot = true

structure ShowsSlots (me : ℕ) (eng : EpollEngine) (lst : ListRun) : Prop where
  tenancy : lst.tenancy = eng.tenancy
  freeSlots : lst.freeSlots = eng.freeSlots
  gen : ∀ s ∈ eng.freeSlots, (lst.conn s).gen = (eng.conn s).gen
  filling : ∀ h r todo, (eng.handshake h).fill me = some (r, todo) →
    ListRun.filled me r.slot (lst.conn r.slot) =
      todo.foldl (Store.apply .tcp r.slot) (eng.conn r.slot)
  conn : ∀ s, s ∉ eng.freeSlots →
    (∀ h r todo, (eng.handshake h).fill me = some (r, todo) → r.slot ≠ s) →
      lst.conn s = eng.conn s

structure ShowsPlaces (me : ℕ) (eng : EpollEngine) (lst : ListRun) : Prop where
  lock : lst.listLock = eng.listLock me
  members : lst.members = eng.enlisting me ++ eng.connList me
  stopping : eng.stopping me = false
  worker : WorkerShown (eng.worker me) (eng.garbage me) lst.worker lst.garbage
  threads : ∀ h, ThreadShown me (eng.handshake h) (lst.handshake h) ∨
    lst.handshake h = .idle ∧ Abroad me eng lst (eng.handshake h)
  workers : ∀ v, v ≠ me → ∀ s, eng.WorkerHas v s → lst.foreign s = true

/-- The list shows what worker `me` of the engine does. -/
structure ShowsList (me : ℕ) (eng : EpollEngine) (lst : ListRun) : Prop where
  slots : ShowsSlots me eng lst
  places : ShowsPlaces me eng lst

/-! ### Who has a slot in hands -/

section Holders

variable {e : Engine} {me : ℕ} {own : ℕ → Owner} {eng eng' : EpollEngine} {h w s : ℕ} {r : Ref}

theorem fill_own (ha : ∀ a, AgentOk e own eng a) {todo : List Store}
    (hfill : (eng.handshake h).fill me = some (r, todo)) : own r.slot = .thread h := by
  have hok : HandshakeOk e own eng h (eng.handshake h) := ha (.handshake h)
  cases hpc : eng.handshake h <;> rw [hpc] at hok hfill
  case prepare q idx roles l =>
    simp only [HandshakePc.fill] at hfill
    split at hfill
    · cases hfill
      exact hok.1
    · cases hfill
  case setup q idx roles =>
    simp only [HandshakePc.fill] at hfill
    split at hfill
    · cases hfill
      exact hok.1
    · cases hfill
  all_goals cases hfill

theorem ref_tenancy_le (hok : HandshakeOk e own eng h (eng.handshake h))
    (href : (eng.handshake h).ref = some r) : r.tenancy ≤ eng.tenancy r.slot := by
  cases hpc : eng.handshake h <;> rw [hpc] at hok href <;> cases href
  case stamp => exact hok.1
  case register => exact hok.1
  case unref u => cases u with
    | call => exact Nat.le_of_eq hok.2.1.symm
    | exchange | poison | release | push i => exact Nat.le_of_eq hok.2.2.1.symm
  all_goals exact Nat.le_of_eq hok.2.1.symm

/-- The owner of a slot that a worker has on its list or in its bucket. -/
theorem workerHas_own (hb : Base e own eng) (ha : ∀ a, AgentOk e own eng a)
    (hhas : eng.WorkerHas w s) :
    (own s).InList w ∨ own s = .worker w ∨ own s = .ending (.worker w) := by
  have hok : WorkerOk e own eng w (eng.worker w) (eng.garbage w) := ha (.worker w)
  rcases hhas with hmem | hmem
  · exact .inl (((hb.lists w).2 s).mp hmem)
  · obtain ⟨r, hr, rfl⟩ := List.mem_map.mp hmem
    by_cases hpending : r ∈ (eng.worker w).pending (eng.garbage w)
    · exact .inr (.inl (hok.pending r hpending).1)
    · cases hpc : eng.worker w <;> rw [hpc] at hr hpending hok
      case unref rest u k =>
        simp only [WorkerPc.carried, WorkerPc.pending, List.mem_append] at hr hpending
        cases rest with
        | nil => cases u <;> simp_all
        | cons q rest =>
            by_cases hu : u = .call
            · simp_all
            · have hrq : r = q := by
                simp only [hu, if_false, List.tail_cons] at hpending
                rcases hr with hr | hr
                · rcases List.mem_cons.mp hr with hr | hr
                  · exact hr
                  · exact absurd (.inl hr) hpending
                · exact absurd (.inr hr) hpending
              subst hrq
              exact .inr (.inr (hok.finalizing r rest u k rfl hu).1)
      all_goals exact absurd hr hpending

theorem not_mem_free (hb : Base e own eng) (hown : own s ≠ .free) : s ∉ eng.freeSlots :=
  fun hmem => hown (hb.free.2 s hmem).1

end Holders

/-! ### The slots -/

/-- A step leaves the slots alone, on both sides. -/
structure SlotsStill (eng eng' : EpollEngine) (lst lst' : ListRun) : Prop where
  conn : eng'.conn = eng.conn := by rfl
  tenancy : eng'.tenancy = eng.tenancy := by rfl
  freeSlots : eng'.freeSlots = eng.freeSlots := by rfl
  conn' : lst'.conn = lst.conn := by rfl
  tenancy' : lst'.tenancy = lst.tenancy := by rfl
  freeSlots' : lst'.freeSlots = lst.freeSlots := by rfl

namespace ShowsSlots

variable {me : ℕ} {eng eng' : EpollEngine} {lst lst' : ListRun} {s : ℕ} {c : Conn}

/-- Nothing about slots has changed. -/
theorem same (h : ShowsSlots me eng lst) (hstill : SlotsStill eng eng' lst lst')
    (hfill : ∀ i, (eng'.handshake i).fill me = (eng.handshake i).fill me) :
    ShowsSlots me eng' lst' where
  tenancy := by rw [hstill.tenancy', hstill.tenancy, h.tenancy]
  freeSlots := by rw [hstill.freeSlots', hstill.freeSlots, h.freeSlots]
  gen := by
    rw [hstill.freeSlots, hstill.conn, hstill.conn']
    exact h.gen
  filling i r todo hi := by
    rw [hstill.conn, hstill.conn']
    exact h.filling i r todo ((hfill i).symm.trans hi)
  conn t ht hnot := by
    rw [hstill.conn, hstill.conn']
    refine h.conn t (hstill.freeSlots ▸ ht) fun i r todo hi => ?_
    exact hnot i r todo ((hfill i).trans hi)

/-- Both store the same into a slot that no thread is filling in any more. -/
theorem update (h : ShowsSlots me eng lst) (hconn : eng'.conn = Function.update eng.conn s c)
    (htenancy : eng'.tenancy = eng.tenancy) (hfree : eng'.freeSlots = eng.freeSlots)
    (hfill : ∀ i r todo, (eng'.handshake i).fill me = some (r, todo) →
      (eng.handshake i).fill me = some (r, todo) ∧ r.slot ≠ s)
    (hdone : ∀ i r todo, (eng.handshake i).fill me = some (r, todo) →
      (eng'.handshake i).fill me = some (r, todo) ∨ r.slot = s)
    (hconn' : lst'.conn = Function.update lst.conn s c) (htenancy' : lst'.tenancy = lst.tenancy)
    (hfree' : lst'.freeSlots = lst.freeSlots) : ShowsSlots me eng' lst' where
  tenancy := by rw [htenancy', htenancy, h.tenancy]
  freeSlots := by rw [hfree', hfree, h.freeSlots]
  gen t ht := by
    rw [hconn, hconn']
    by_cases hts : t = s
    · rw [hts, Function.update_self, Function.update_self]
    · rw [Function.update_of_ne hts, Function.update_of_ne hts]
      exact h.gen t (hfree ▸ ht)
  filling i r todo hi := by
    obtain ⟨hi', hne⟩ := hfill i r todo hi
    rw [hconn, hconn', Function.update_of_ne hne, Function.update_of_ne hne]
    exact h.filling i r todo hi'
  conn t ht hnot := by
    rw [hconn, hconn']
    by_cases hts : t = s
    · rw [hts, Function.update_self, Function.update_self]
    · rw [Function.update_of_ne hts, Function.update_of_ne hts]
      refine h.conn t (hfree ▸ ht) fun i r todo hi => ?_
      rcases hdone i r todo hi with hi' | hrs
      · exact hnot i r todo hi'
      · exact fun hrt => hts (hrt.symm.trans hrs)

/-- Both store the same into a slot that no thread fills in. -/
theorem touch (h : ShowsSlots me eng lst) (hconn : eng'.conn = Function.update eng.conn s c)
    (htenancy : eng'.tenancy = eng.tenancy) (hfree : eng'.freeSlots = eng.freeSlots)
    (hfill : ∀ i, (eng'.handshake i).fill me = (eng.handshake i).fill me)
    (hapart : ∀ i r todo, (eng.handshake i).fill me = some (r, todo) → r.slot ≠ s)
    (hconn' : lst'.conn = Function.update lst.conn s c) (htenancy' : lst'.tenancy = lst.tenancy)
    (hfree' : lst'.freeSlots = lst.freeSlots) : ShowsSlots me eng' lst' := by
  refine h.update hconn htenancy hfree (fun i r todo hi => ?_) (fun i r todo hi => ?_) hconn'
    htenancy' hfree'
  · rw [hfill] at hi
    exact ⟨hi, hapart i r todo hi⟩
  · rw [hfill]
    exact .inl hi

/-- A free slot lags behind. -/
theorem late (h : ShowsSlots me eng lst) (hconn : eng'.conn = Function.update eng.conn s c)
    (htenancy : eng'.tenancy = eng.tenancy) (hfree : eng'.freeSlots = eng.freeSlots)
    (hgen : c.gen = (eng.conn s).gen) (hmem : s ∈ eng.freeSlots)
    (hfill : ∀ i, (eng'.handshake i).fill me = (eng.handshake i).fill me)
    (hapart : ∀ i r todo, (eng.handshake i).fill me = some (r, todo) → r.slot ≠ s) :
    ShowsSlots me eng' lst where
  tenancy := by rw [htenancy, h.tenancy]
  freeSlots := by rw [hfree, h.freeSlots]
  gen t ht := by
    rw [hfree] at ht
    rw [h.gen t ht, hconn]
    by_cases hts : t = s
    · rw [hts, Function.update_self, hgen]
    · rw [Function.update_of_ne hts]
  filling i r todo hi := by
    rw [hfill] at hi
    rw [hconn, Function.update_of_ne (hapart i r todo hi)]
    exact h.filling i r todo hi
  conn t ht hnot := by
    rw [hfree] at ht
    have hts : t ≠ s := by
      rintro rfl
      exact ht hmem
    rw [hconn, Function.update_of_ne hts]
    refine h.conn t ht fun i r todo hi => ?_
    exact hnot i r todo ((hfill i).trans hi)

/-- The slot goes back to the stack. -/
theorem push (h : ShowsSlots me eng lst) (hslot : lst.conn s = eng.conn s)
    (hconn : eng'.conn = eng.conn) (htenancy : eng'.tenancy = eng.tenancy)
    (hfree : eng'.freeSlots = s :: eng.freeSlots)
    (hfill : ∀ i, (eng'.handshake i).fill me = (eng.handshake i).fill me)
    (hconn' : lst'.conn = lst.conn) (htenancy' : lst'.tenancy = lst.tenancy)
    (hfree' : lst'.freeSlots = s :: lst.freeSlots) : ShowsSlots me eng' lst' where
  tenancy := by rw [htenancy', htenancy, h.tenancy]
  freeSlots := by rw [hfree', hfree, h.freeSlots]
  gen t ht := by
    rw [hfree] at ht
    rw [hconn, hconn']
    rcases List.mem_cons.mp ht with rfl | ht
    · rw [hslot]
    · exact h.gen t ht
  filling i r todo hi := by
    rw [hconn, hconn']
    exact h.filling i r todo ((hfill i).symm.trans hi)
  conn t ht hnot := by
    rw [hfree, List.mem_cons, not_or] at ht
    rw [hconn, hconn']
    refine h.conn t ht.2 fun i r todo hi => ?_
    exact hnot i r todo ((hfill i).trans hi)

end ShowsSlots

end FiveGProxy
