import FiveGProxy.Slots.ListModel

/-!
# Who may touch the list

A connection on the list of a worker is taken out by the worker, or under the same lock by the thread
that has put it there; a thread and the worker only unreference what they hold off the list. So every
slot has one holder at a time, and a step of one of them leaves what the others hold alone.
-/

namespace FiveGProxy

open Steps

/-- `pending h` is a connection on the list that thread `h` has not registered yet. -/
inductive Holder
  | free
  | foreign
  | thread (h : ℕ)
  | pending (h : ℕ)
  | listed
  | worker
  deriving DecidableEq

namespace Holder

def Linked : Holder → Prop
  | pending _ | listed => True
  | free | foreign | thread _ | worker => False

instance (o : Holder) : Decidable o.Linked := by
  cases o <;> unfold Linked <;> infer_instance

def OfThread (o : Holder) (h : ℕ) : Prop := o = thread h ∨ o = pending h

@[simp] theorem not_linked_free : ¬free.Linked := id
@[simp] theorem not_linked_foreign : ¬foreign.Linked := id
@[simp] theorem not_linked_thread (h : ℕ) : ¬(thread h).Linked := id
@[simp] theorem not_linked_worker : ¬worker.Linked := id
@[simp] theorem linked_pending (h : ℕ) : (pending h).Linked := trivial
@[simp] theorem linked_listed : listed.Linked := trivial

end Holder

/-- A connection on the list. -/
structure Conn.Hung (me s : ℕ) (c : Conn) : Prop where
  slotState : c.slotState = true
  magic : c.magic = Engine.tcp.magic
  refs : c.refs = 1
  finalized : c.finalized = false
  slot : c.slot = s
  closed : c.closed = false
  widx : c.widx = me

def SlotKept (me s : ℕ) (o : Holder) (c : Conn) : Prop :=
  match o with
  | .free => c.slotState = false
  | .foreign => ¬ListRun.Passes me c
  | .thread _ => c.slotState = false ∨ c.registered = false
  | .pending _ => c.Hung me s ∧ c.registered = false
  | .listed => c.Hung me s ∧ c.registered = true
  | .worker => c.closed = true

/-- What `conn_unref` finds. -/
structure UnrefOk (me : ℕ) (st : ListRun) (r : Ref) (pc : UnrefPc) : Prop where
  tenancy : st.tenancy r.slot = r.tenancy
  alone : st.links.Alone r.slot
  widx : (st.conn r.slot).widx = me
  slot : (st.conn r.slot).slot = r.slot
  refs : pc = .call → (st.conn r.slot).refs = 1
  finalized : pc = .call ∨ pc = .exchange → (st.conn r.slot).finalized = false
  push : ∀ s, pc = .push s → s = r.slot ∧ (st.conn s).slotState = false

def HandoffOk (me : ℕ) (own : ℕ → Holder) (st : ListRun) (h : ℕ) : HandoffPc → Prop
  | .idle => True
  | .fill r =>
      own r.slot = .thread h ∧ st.tenancy r.slot = r.tenancy ∧ (st.conn r.slot).slotState = false
  | .lock r =>
      own r.slot = .thread h ∧ st.tenancy r.slot = r.tenancy ∧ st.links.Alone r.slot ∧
        (st.conn r.slot).Hung me r.slot ∧ (st.conn r.slot).registered = false
  | .add r =>
      own r.slot = .pending h ∧ st.tenancy r.slot = r.tenancy ∧ st.listLock = some (.handshake h)
  | .rollback r =>
      own r.slot = .thread h ∧ UnrefOk me st r .call ∧ st.listLock = some (.handshake h)
  | .register r => own r.slot = .pending h ∧ st.tenancy r.slot = r.tenancy
  | .unref r pc => own r.slot = .thread h ∧ UnrefOk me st r pc

namespace ScanPc

def todo (pc : ScanPc) (garbage : List Ref) : List (Ref × UnrefPc) :=
  match pc with
  | events _ | scan _ => garbage.map (·, .call)
  | unref [] _ saved => saved.toList.map fun p => (p.1, .call)
  | unref (r :: rest) u saved => (r, u) :: (rest ++ saved.toList.map Prod.fst).map (·, .call)
  | relock keep _ => [(keep, .call)]

def Traversing : ScanPc → Prop
  | scan _ => True
  | events _ | unref .. | relock .. => False

end ScanPc

structure WorkerHolds (me : ℕ) (own : ℕ → Holder) (st : ListRun) (pc : ScanPc)
    (garbage : List Ref) : Prop where
  nodup : ((pc.todo garbage).map fun p => p.1.slot).Nodup
  todo : ∀ p ∈ pc.todo garbage, own p.1.slot = .worker ∧ UnrefOk me st p.1 p.2
  lock : pc.Traversing → st.listLock = some (.worker me)

structure ListBase (me : ℕ) (own : ℕ → Holder) (st : ListRun) : Prop where
  list : st.links.IsList st.members
  members : ∀ s, s ∈ st.members ↔ (own s).Linked
  slots : ∀ s, SlotKept me s (own s) (st.conn s)
  free : st.freeSlots.Nodup ∧ ∀ s ∈ st.freeSlots, own s = .free
  foreign : ∀ s, st.foreign s = true → own s = .foreign

def ListRun.HasLock (me : ℕ) (st : ListRun) (a : Agent) : Prop :=
  match a with
  | .worker w => w = me ∧ st.worker.Traversing
  | .handshake h => ∃ r, st.handshake h = .add r ∨ st.handshake h = .rollback r

structure ListOwned (me : ℕ) (own : ℕ → Holder) (st : ListRun) : Prop where
  base : ListBase me own st
  worker : WorkerHolds me own st st.worker st.garbage
  threads : ∀ h, HandoffOk me own st h (st.handshake h)
  lock : ∀ a, st.listLock = some a → st.HasLock me a

/-! ### What the others notice -/

section

variable {me : ℕ} {own own' : ℕ → Holder} {st st' : ListRun} {r : Ref} {h : ℕ}

/-- What is stored about the slot is as before, and a node without neighbours stays so. -/
structure Kept (st st' : ListRun) (s : ℕ) : Prop where
  conn : st'.conn s = st.conn s
  tenancy : st'.tenancy s = st.tenancy s
  alone : st.links.Alone s → st'.links.Alone s

theorem Kept.of_eq (hconn : st'.conn = st.conn) (htenancy : st'.tenancy = st.tenancy)
    (hlinks : st'.links = st.links) (s : ℕ) : Kept st st' s :=
  ⟨congrFun hconn s, congrFun htenancy s, fun h => hlinks ▸ h⟩

theorem UnrefOk.frame {pc : UnrefPc} (hok : UnrefOk me st r pc) (hkept : Kept st st' r.slot) :
    UnrefOk me st' r pc where
  tenancy := hkept.tenancy.trans hok.tenancy
  alone := hkept.alone hok.alone
  widx := by rw [hkept.conn, hok.widx]
  slot := by rw [hkept.conn, hok.slot]
  refs hpc := by rw [hkept.conn, hok.refs hpc]
  finalized hpc := by rw [hkept.conn, hok.finalized hpc]
  push s hs := by
    obtain ⟨rfl, hstate⟩ := hok.push s hs
    exact ⟨rfl, by rw [hkept.conn, hstate]⟩

theorem HandoffOk.frame {pc : HandoffPc} (hok : HandoffOk me own st h pc)
    (hthread : ∀ s, own s = .thread h → own' s = .thread h ∧ Kept st st' s)
    (hpending : ∀ s, own s = .pending h → own' s = .pending h ∧ st'.tenancy s = st.tenancy s)
    (hlock : st.listLock = some (.handshake h) → st'.listLock = some (.handshake h)) :
    HandoffOk me own' st' h pc := by
  cases pc with
  | idle => trivial
  | fill r =>
      obtain ⟨hown, hten, hstate⟩ := hok
      obtain ⟨hown', hkept⟩ := hthread _ hown
      exact ⟨hown', hkept.tenancy.trans hten, by rw [hkept.conn, hstate]⟩
  | lock r =>
      obtain ⟨hown, hten, halone, hhung, hreg⟩ := hok
      obtain ⟨hown', hkept⟩ := hthread _ hown
      exact ⟨hown', hkept.tenancy.trans hten, hkept.alone halone, hkept.conn ▸ hhung,
        by rw [hkept.conn, hreg]⟩
  | add r =>
      obtain ⟨hown, hten, hl⟩ := hok
      obtain ⟨hown', hten'⟩ := hpending _ hown
      exact ⟨hown', hten'.trans hten, hlock hl⟩
  | rollback r =>
      obtain ⟨hown, hun, hl⟩ := hok
      obtain ⟨hown', hkept⟩ := hthread _ hown
      exact ⟨hown', hun.frame hkept, hlock hl⟩
  | register r =>
      obtain ⟨hown, hten⟩ := hok
      obtain ⟨hown', hten'⟩ := hpending _ hown
      exact ⟨hown', hten'.trans hten⟩
  | unref r u =>
      obtain ⟨hown, hun⟩ := hok
      obtain ⟨hown', hkept⟩ := hthread _ hown
      exact ⟨hown', hun.frame hkept⟩

theorem WorkerHolds.frame {pc : ScanPc} {garbage : List Ref} (hok : WorkerHolds me own st pc garbage)
    (hworker : ∀ s, own s = .worker → own' s = .worker ∧ Kept st st' s)
    (hlock : st.listLock = some (.worker me) → st'.listLock = some (.worker me)) :
    WorkerHolds me own' st' pc garbage where
  nodup := hok.nodup
  todo p hp := by
    obtain ⟨hown, hun⟩ := hok.todo p hp
    obtain ⟨hown', hkept⟩ := hworker _ hown
    exact ⟨hown', hun.frame hkept⟩
  lock hpc := hlock (hok.lock hpc)

/-- A step that changes slot `s₀` only; the pointers of other nodes change on the list. -/
structure Touches (own : ℕ → Holder) (st st' : ListRun) (s₀ : ℕ) (c : Conn) : Prop where
  conn : st'.conn = Function.update st.conn s₀ c
  tenancy : ∀ s, s ≠ s₀ → st'.tenancy s = st.tenancy s
  alone : ∀ s, s ≠ s₀ → ¬(own s).Linked → st.links.Alone s → st'.links.Alone s

variable {s₀ : ℕ} {c : Conn} {o : Holder}

theorem Touches.kept (ht : Touches own st st' s₀ c) {s : ℕ} (hs : s ≠ s₀)
    (hlinked : ¬(own s).Linked) : Kept st st' s where
  conn := by rw [ht.conn, Function.update_of_ne hs]
  tenancy := ht.tenancy s hs
  alone := ht.alone s hs hlinked

theorem HandoffOk.touch {pc : HandoffPc} (hok : HandoffOk me own st h pc)
    (ht : Touches own st st' s₀ c) (hheld : ¬(own s₀).OfThread h)
    (hlock : st.listLock = some (.handshake h) → st'.listLock = some (.handshake h)) :
    HandoffOk me (Function.update own s₀ o) st' h pc := by
  refine hok.frame (fun s hs => ?_) (fun s hs => ?_) hlock
  · have hne : s ≠ s₀ := fun heq => hheld (Or.inl (heq ▸ hs))
    exact ⟨by rw [Function.update_of_ne hne, hs], ht.kept hne (by simp [hs])⟩
  · have hne : s ≠ s₀ := fun heq => hheld (Or.inr (heq ▸ hs))
    exact ⟨by rw [Function.update_of_ne hne, hs], ht.tenancy s hne⟩

theorem WorkerHolds.touch {pc : ScanPc} {garbage : List Ref} (hok : WorkerHolds me own st pc garbage)
    (ht : Touches own st st' s₀ c) (hheld : own s₀ ≠ .worker)
    (hlock : st.listLock = some (.worker me) → st'.listLock = some (.worker me)) :
    WorkerHolds me (Function.update own s₀ o) st' pc garbage := by
  refine hok.frame (fun s hs => ?_) hlock
  have hne : s ≠ s₀ := fun heq => hheld (heq ▸ hs)
  exact ⟨by rw [Function.update_of_ne hne, hs], ht.kept hne (by simp [hs])⟩

theorem ListBase.touch (hb : ListBase me own st) (ht : Touches own st st' s₀ c)
    (hlist : st'.links.IsList st'.members)
    (hmembers : ∀ s, s ∈ st'.members ↔ (Function.update own s₀ o s).Linked)
    (hslot : SlotKept me s₀ o c)
    (hfree : st'.freeSlots.Nodup ∧ ∀ s ∈ st'.freeSlots, Function.update own s₀ o s = .free)
    (hforeign : ∀ s, st'.foreign s = true → Function.update own s₀ o s = .foreign) :
    ListBase me (Function.update own s₀ o) st' where
  list := hlist
  members := hmembers
  slots s := by
    rw [ht.conn]
    by_cases hs : s = s₀
    · subst hs
      simpa using hslot
    · simpa [hs] using hb.slots s
  free := hfree
  foreign := hforeign

theorem ListBase.move (hb : ListBase me own st) (ht : Touches own st st' s₀ c)
    (hlist : st'.links.IsList st'.members) (hmembers : st'.members = st.members)
    (hslot : SlotKept me s₀ o c) (hlinked : o.Linked ↔ (own s₀).Linked)
    (hfree : st'.freeSlots = st.freeSlots) (hnot : own s₀ ≠ .free)
    (hforeign : st'.foreign = st.foreign) (hkeep : own s₀ = .foreign → o = .foreign) :
    ListBase me (Function.update own s₀ o) st' := by
  refine hb.touch ht hlist (fun s => ?_) hslot ⟨hfree ▸ hb.free.1, fun s hs => ?_⟩ fun s hs => ?_
  · rw [hmembers, hb.members]
    by_cases hs : s = s₀
    · subst hs
      rw [Function.update_self, hlinked]
    · rw [Function.update_of_ne hs]
  · rw [hfree] at hs
    have hfr := hb.free.2 s hs
    have hne : s ≠ s₀ := fun heq => hnot (heq ▸ hfr)
    rw [Function.update_of_ne hne, hfr]
  · rw [hforeign] at hs
    have hfr := hb.foreign s hs
    by_cases hne : s = s₀
    · subst hne
      rw [Function.update_self, hkeep hfr]
    · rw [Function.update_of_ne hne, hfr]

/-- Nothing that concerns slots has changed. -/
structure SlotsAlike (st st' : ListRun) : Prop where
  conn : st'.conn = st.conn
  tenancy : st'.tenancy = st.tenancy
  links : st'.links = st.links
  members : st'.members = st.members
  freeSlots : st'.freeSlots = st.freeSlots
  foreign : st'.foreign = st.foreign
  handshake : st'.handshake = st.handshake

theorem ListBase.same (hb : ListBase me own st) (hsame : SlotsAlike st st') : ListBase me own st' where
  list := by
    rw [hsame.links, hsame.members]
    exact hb.list
  members s := by rw [hsame.members, hb.members]
  slots s := by
    rw [hsame.conn]
    exact hb.slots s
  free := by
    rw [hsame.freeSlots]
    exact hb.free
  foreign s := by
    rw [hsame.foreign]
    exact hb.foreign s

namespace ListOwned

/-- A step of thread `h` on slot `s₀`. -/
theorem threadStep {pc : HandoffPc} (hinv : ListOwned me own st) (ht : Touches own st st' s₀ c)
    (hbase : ListBase me (Function.update own s₀ o) st') (hnot : own s₀ ≠ .worker)
    (hothers : ∀ i, i ≠ h → ¬(own s₀).OfThread i) (hworker : st'.worker = st.worker)
    (hgarbage : st'.garbage = st.garbage)
    (hhandshake : st'.handshake = Function.update st.handshake h pc)
    (hok : HandoffOk me (Function.update own s₀ o) st' h pc)
    (hlock : ∀ a, a ≠ .handshake h → (st'.listLock = some a ↔ st.listLock = some a))
    (hmine : st'.listLock = some (.handshake h) → ∃ r, pc = .add r ∨ pc = .rollback r) :
    ListOwned me (Function.update own s₀ o) st' where
  base := hbase
  worker := by
    rw [hworker, hgarbage]
    exact hinv.worker.touch ht hnot (hlock _ (by simp)).mpr
  threads i := by
    rw [hhandshake]
    by_cases hi : i = h
    · subst hi
      rwa [Function.update_self]
    · rw [Function.update_of_ne hi]
      exact (hinv.threads i).touch ht (hothers i hi) (hlock _ (by simpa using hi)).mpr
  lock a ha := by
    by_cases hah : a = .handshake h
    · subst hah
      simpa [ListRun.HasLock, hhandshake] using hmine ha
    · have hold := hinv.lock a ((hlock a hah).mp ha)
      cases a with
      | worker w => simpa [ListRun.HasLock, hworker] using hold
      | handshake i =>
          have hi : i ≠ h := fun heq => hah (heq ▸ rfl)
          simpa [ListRun.HasLock, hhandshake, Function.update_of_ne hi] using hold

/-- A step of the worker on slot `s₀`. -/
theorem workerStep (hinv : ListOwned me own st) (ht : Touches own st st' s₀ c)
    (hbase : ListBase me (Function.update own s₀ o) st') (hnot : ∀ i, ¬(own s₀).OfThread i)
    (hhandshake : st'.handshake = st.handshake)
    (hok : WorkerHolds me (Function.update own s₀ o) st' st'.worker st'.garbage)
    (hlock : ∀ i, st'.listLock = some (.handshake i) ↔ st.listLock = some (.handshake i))
    (hmine : ∀ w, st'.listLock = some (.worker w) → w = me ∧ st'.worker.Traversing) :
    ListOwned me (Function.update own s₀ o) st' where
  base := hbase
  worker := hok
  threads i := by
    rw [hhandshake]
    exact (hinv.threads i).touch ht (hnot i) (hlock i).mpr
  lock a ha := by
    cases a with
    | worker w => exact hmine w ha
    | handshake i => simpa [ListRun.HasLock, hhandshake] using hinv.lock _ ((hlock i).mp ha)

theorem workerMove (hinv : ListOwned me own st) (hsame : SlotsAlike st st')
    (hok : WorkerHolds me own st' st'.worker st'.garbage)
    (hlock : ∀ i, st'.listLock = some (.handshake i) ↔ st.listLock = some (.handshake i))
    (hmine : ∀ w, st'.listLock = some (.worker w) → w = me ∧ st'.worker.Traversing) :
    ListOwned me own st' where
  base := hinv.base.same hsame
  worker := hok
  threads i := by
    rw [hsame.handshake]
    exact (hinv.threads i).frame (fun s hs => ⟨hs, .of_eq hsame.conn hsame.tenancy hsame.links s⟩)
      (fun s hs => ⟨hs, congrFun hsame.tenancy s⟩) (hlock i).mpr
  lock a ha := by
    cases a with
    | worker w => exact hmine w ha
    | handshake i => simpa [ListRun.HasLock, hsame.handshake] using hinv.lock _ ((hlock i).mp ha)

theorem foreignStep (hinv : ListOwned me own st) (ht : Touches own st st' s₀ c)
    (hbase : ListBase me (Function.update own s₀ o) st') (hheld : own s₀ = .free ∨ own s₀ = .foreign)
    (hworker : st'.worker = st.worker) (hgarbage : st'.garbage = st.garbage)
    (hhandshake : st'.handshake = st.handshake) (hlock : st'.listLock = st.listLock) :
    ListOwned me (Function.update own s₀ o) st' where
  base := hbase
  worker := by
    rw [hworker, hgarbage]
    exact hinv.worker.touch ht (by rcases hheld with h | h <;> simp [h]) (by rw [hlock]; exact id)
  threads i := by
    rw [hhandshake]
    refine (hinv.threads i).touch ht ?_ (by rw [hlock]; exact id)
    rcases hheld with h | h <;> simp [h, Holder.OfThread]
  lock a ha := by
    rw [hlock] at ha
    have hold := hinv.lock a ha
    cases a with
    | worker w => simpa [ListRun.HasLock, hworker] using hold
    | handshake i => simpa [ListRun.HasLock, hhandshake] using hold

end ListOwned

/-! ### Unreferencing -/

/-- What a step of `conn_unref` does to a connection that is off the list. -/
inductive UnrefMove (me : ℕ) (st : ListRun) (r : Ref) : ListRun → Option UnrefPc → Prop
  | go (c : Conn) (u : UnrefPc) (hok : UnrefOk me (st.setConn r.slot c) r u)
      (hclosed : c.closed = (st.conn r.slot).closed)
      (hregistered : c.registered = (st.conn r.slot).registered)
      (hstate : (st.conn r.slot).slotState = false → c.slotState = false) :
      UnrefMove me st r (st.setConn r.slot c) (some u)
  | done (hstate : (st.conn r.slot).slotState = false) :
      UnrefMove me st r { st with freeSlots := r.slot :: st.freeSlots } none

theorem UnrefOk.go {pc u : UnrefPc} {c : Conn} (hok : UnrefOk me st r pc)
    (hwidx : c.widx = (st.conn r.slot).widx) (hslot : c.slot = (st.conn r.slot).slot)
    (hcall : u ≠ .call) (hfinalized : u = .exchange → c.finalized = false)
    (hpush : ∀ s, u = .push s → s = r.slot ∧ c.slotState = false) :
    UnrefOk me (st.setConn r.slot c) r u where
  tenancy := hok.tenancy
  alone := hok.alone
  widx := by
    rw [ListRun.setConn_conn, hwidx, hok.widx]
  slot := by
    rw [ListRun.setConn_conn, hslot, hok.slot]
  refs hu := absurd hu hcall
  finalized hu := by
    rw [ListRun.setConn_conn]
    exact hfinalized (hu.resolve_left hcall)
  push s hs := by
    obtain ⟨rfl, hstate⟩ := hpush s hs
    rw [ListRun.setConn_conn]
    exact ⟨rfl, hstate⟩

/-- The connection is off the list already, so that `conn_finalize` leaves the list alone. -/
theorem unref_move (hb : ListBase me own st) {pc : UnrefPc} (hok : UnrefOk me st r pc)
    (hnot : ¬(own r.slot).Linked) {st₁ : ListRun} {u : Option UnrefPc}
    (hstep : st.unrefStep me r pc = some (st₁, u)) : UnrefMove me st r st₁ u := by
  cases pc with
  | call =>
      simp only [ListRun.unrefStep, hok.refs rfl, if_true] at hstep
      cases hstep
      refine .go _ _ (hok.go rfl rfl (by simp) (fun _ => ?_) (by simp)) rfl rfl id
      exact hok.finalized (Or.inl rfl)
  | exchange =>
      simp only [ListRun.unrefStep, hok.finalized (Or.inr rfl), Bool.false_eq_true, if_false] at hstep
      cases hstep
      exact .go _ _ (hok.go rfl rfl (by simp) (by simp) (by simp)) rfl rfl id
  | poison =>
      have hhead : st.links.head ≠ some r.slot := by
        rw [hb.list.head_eq]
        exact fun heq => hnot ((hb.members _).mp (List.mem_of_head? heq))
      have hlinked : ¬((st.links.next r.slot).isSome ∨ (st.links.prev r.slot).isSome ∨
          st.links.head = some r.slot) := by
        simp [hok.alone.1, hok.alone.2, hhead]
      simp only [ListRun.unrefStep, hok.widx, ne_eq, not_true_eq_false, if_false, hlinked] at hstep
      split at hstep
      case isTrue =>
        cases hstep
        exact .go _ _ (hok.go hok.widx.symm rfl (by simp) (by simp) (by simp)) rfl rfl id
      case isFalse => cases hstep
  | release =>
      simp only [ListRun.unrefStep, hok.slot] at hstep
      cases hstep
      refine .go _ _ (hok.go rfl hok.slot.symm (by simp) (by simp) fun s hs => ?_) rfl rfl fun _ => rfl
      exact ⟨(UnrefPc.push.inj hs).symm, rfl⟩
  | push s =>
      obtain ⟨rfl, hstate⟩ := hok.push s rfl
      cases hstep
      exact .done hstate

end

end FiveGProxy
