import FiveGProxy.Slots.Transition
import Mathlib.Data.List.Nodup
import Mathlib.Tactic.Common

/-!
# Who owns a slot

Every slot has one owner at a time: the stack of free slots, the handshake thread that fills it in,
the list of a worker, the worker that has collected it, or the thread that runs `conn_finalize` on
it. `Base` says what the shared state looks like under an assignment of owners, `AgentOk` what a
thread may rely on; a step moves at most one slot from one owner to the next, and
`AgentOk.frame` says that the threads which do not own that slot notice nothing.
-/

namespace FiveGProxy

open Steps

/-- `adding h w` is `listed w` while thread `h` still holds the lock under which it registers;
`lost` is a UDP session that a worker has closed with no room left in its bucket. -/
inductive Owner
  | free
  | thread (h : ℕ)
  | adding (h w : ℕ)
  | listed (w : ℕ)
  | worker (w : ℕ)
  | ending (a : Agent)
  | lost

namespace Owner

def InList (o : Owner) (w : ℕ) : Prop := o = .listed w ∨ ∃ h, o = .adding h w

def OfThread (o : Owner) (h : ℕ) : Prop := o = .thread h ∨ ∃ w, o = .adding h w

def Ended (o : Owner) : Prop := o = .free ∨ ∃ a, o = .ending a

def HeldBy (o : Owner) : Agent → Prop
  | .worker w => o = .listed w ∨ o = .worker w ∨ o = .ending (.worker w)
  | .handshake h => o.OfThread h ∨ o = .ending (.handshake h)

/-- Its handshake thread may still set `registered`. -/
def Settled (o : Owner) (c : Conn) : Prop :=
  (∃ w, o = .listed w) ∨ c.closed = true ∧ ∀ h, ¬ o.OfThread h

@[simp] theorem free_not_inList (w : ℕ) : ¬ free.InList w := by simp [InList]
@[simp] theorem thread_not_inList (h w : ℕ) : ¬ (thread h).InList w := by simp [InList]
@[simp] theorem worker_not_inList (i w : ℕ) : ¬ (worker i).InList w := by simp [InList]
@[simp] theorem ending_not_inList (a : Agent) (w : ℕ) : ¬ (ending a).InList w := by simp [InList]
@[simp] theorem lost_not_inList (w : ℕ) : ¬ lost.InList w := by simp [InList]
@[simp] theorem listed_inList {i w : ℕ} : (listed i).InList w ↔ i = w := by simp [InList]
@[simp] theorem adding_inList {h i w : ℕ} : (adding h i).InList w ↔ i = w := by simp [InList]

theorem InList.unique {o : Owner} {v w : ℕ} (hv : o.InList v) (hw : o.InList w) : v = w := by
  rcases hv with rfl | ⟨h, rfl⟩
  · exact listed_inList.mp hw
  · exact adding_inList.mp hw

theorem HeldBy.unique {o : Owner} {a b : Agent} (ha : o.HeldBy a) (hb : o.HeldBy b) : a = b := by
  cases a <;> cases b <;> simp only [HeldBy, OfThread] at ha hb <;>
    rcases o with _ | _ | _ | _ | _ | _ | _ <;> simp_all

end Owner

/-- What every connection looks like between the stores of its handshake thread and its
`conn_unref`. -/
structure Conn.Held (e : Engine) (s : ℕ) (c : Conn) : Prop where
  slotState : c.slotState = true
  magic : c.magic = e.magic
  refs : c.refs = 1
  finalized : c.finalized = false
  slot : c.slot = s
  epU64 : c.epU64 = epKey c.gen s

/-- A connection that is filled in and not yet on a list. -/
structure Conn.Ready (e : Engine) (s idx : ℕ) (c : Conn) : Prop extends c.Held e s where
  closed : c.closed = false
  registered : c.registered = false
  widx : c.widx = idx

def SlotOk (e : Engine) (s : ℕ) (o : Owner) (c : Conn) : Prop :=
  match o with
  | .free => c.slotState = false
  | .thread _ => c.slotState = true → c.registered = false
  | .adding _ w => c.Ready e s w
  | .listed w => c.Held e s ∧ c.closed = false ∧ c.widx = w
  | .worker _ => c.Held e s ∧ c.closed = true
  | .ending _ => c.refs = 0 ∧ c.slot = s ∧ (c.closed = true ∨ c.registered = false)
  | .lost => c.closed = true

/-- The generation of a slot after `n` increments; the first `slots_init` has set it to 1. -/
def genOf (n : ℕ) : BitVec 32 := BitVec.ofNat 32 (n + 1)

theorem genOf_succ (n : ℕ) : genOf (n + 1) = genOf n + 1 := by
  simp [genOf, BitVec.ofNat_add]

/-- The stores that fill in connection `r`. -/
def prepareStores (e : Engine) (r : Ref) (idx : ℕ) : List Store :=
  slotAcquireStores (genOf r.tenancy) ++ handoffStores e idx

/-- Some of the stores have been made, and `todo` are left. -/
def Prepared (e : Engine) (r : Ref) (idx : ℕ) (todo : List Store) (c : Conn) : Prop :=
  ∃ done c₀, done ++ todo = prepareStores e r idx ∧ c₀.slotState = false ∧ 0 ≤ c₀.refs ∧
    c = done.foldl (Store.apply e r.slot) c₀

/-- The generation of slot `s` is the one that its handshake thread is about to store. -/
def HandshakePc.GenPending (pc : HandshakePc) (s : ℕ) : Prop :=
  match pc with
  | .prepare r _ _ todo => r.slot = s ∧ ∃ g, Store.gen g ∈ todo
  | _ => False

def Engine.Roles (e : Engine) (roles : List FdRole) : Prop :=
  ∃ l ∈ e.roleLists, ∀ role ∈ roles, role ∈ l

def Issued.Ok (e : Engine) (tenancy : ℕ → ℕ) (i : Issued) : Prop :=
  i.raw = epKey (genOf i.ref.tenancy) i.ref.slot ||| e.roleFlag i.role ∧
    i.ref.slot < e.slotCount ∧ (∃ l ∈ e.roleLists, i.role ∈ l) ∧
    1 ≤ i.ref.tenancy ∧ i.ref.tenancy ≤ tenancy i.ref.slot

/-- The identifier was handed out for the slot, in this tenancy or in one whose number differs from
it by a multiple of `2 ^ 32`; and the connection was live. -/
structure Verdict.Ok (e : Engine) (tenancy : ℕ → ℕ) (issued : List Issued) (v : Verdict) :
    Prop where
  issued : ∃ i ∈ issued, i.raw = v.raw ∧ i.role = v.role ∧ i.ref.slot = v.ref.slot ∧
    genOf i.ref.tenancy = genOf v.ref.tenancy ∧ i.ref.tenancy ≤ v.ref.tenancy
  tenancy : v.ref.tenancy ≤ tenancy v.ref.slot
  registered : v.conn.registered = true
  closed : v.conn.closed = false
  refs : v.conn.refs = 1
  finalized : v.conn.finalized = false
  own : e = .tcp → v.conn.widx = v.worker

def ListsOk (own : ℕ → Owner) (connList : ℕ → List ℕ) : Prop :=
  ∀ w, (connList w).Nodup ∧ ∀ s, s ∈ connList w ↔ (own s).InList w

theorem Issued.Ok.mono {e : Engine} {i : Issued} {n m : ℕ → ℕ} (hi : i.Ok e n) (hnm : ∀ s, n s ≤ m s) :
    i.Ok e m := by
  obtain ⟨h1, h2, h3, h4, h5⟩ := hi
  exact ⟨h1, h2, h3, h4, Nat.le_trans h5 (hnm _)⟩

theorem Verdict.Ok.mono {e : Engine} {v : Verdict} {n m : ℕ → ℕ} {l l' : List Issued} (hv : v.Ok e n l)
    (hnm : ∀ s, n s ≤ m s) (hl : l ⊆ l') : v.Ok e m l' :=
  { hv with
    issued := by
      obtain ⟨i, hi, h⟩ := hv.issued
      exact ⟨i, hl hi, h⟩
    tenancy := Nat.le_trans hv.tenancy (hnm _) }

structure Base (e : Engine) (own : ℕ → Owner) (st : EpollEngine) : Prop where
  slots : ∀ s, SlotOk e s (own s) (st.conn s)
  refs : ∀ s, 0 ≤ (st.conn s).refs
  bound : ∀ s, own s ≠ .free → s < e.slotCount ∧ 1 ≤ st.tenancy s
  lists : ListsOk own st.connList
  free : st.freeSlots.Nodup ∧ ∀ s ∈ st.freeSlots, own s = .free ∧ s < e.slotCount
  log : (st.unrefs.map UnrefCall.ref).Nodup
  logged : ∀ u ∈ st.unrefs, u.appliedTo = u.ref.tenancy ∧
    u.ref.tenancy ≤ st.tenancy u.ref.slot ∧
      (u.ref.tenancy = st.tenancy u.ref.slot → (own u.ref.slot).Ended)
  issued : ∀ i ∈ st.issued, i.Ok e st.tenancy
  verdicts : ∀ v ∈ st.verdicts, v.Ok e st.tenancy st.issued

/-- What only the handshake threads explain: a generation that is not the current one, and a
connection on a list that is still being registered. -/
structure Pcs (own : ℕ → Owner) (st : EpollEngine) : Prop where
  gens : ∀ s, (st.conn s).gen = genOf (st.tenancy s) ∨ ∃ h, (st.handshake h).GenPending s
  adding : ∀ s h w, own s = .adding h w → ∃ r roles, st.handshake h = .add r w roles ∧ r.slot = s

/-- Agent `a` is in `conn_finalize` of `r`. -/
def Finalizing (own : ℕ → Owner) (st : EpollEngine) (a : Agent) (r : Ref) (pc : UnrefPc) : Prop :=
  own r.slot = .ending a ∧ (pc = .exchange → (st.conn r.slot).finalized = false) ∧
    st.tenancy r.slot = r.tenancy ∧ ∀ s, pc = .push s → s = r.slot ∧ (st.conn s).slotState = false

def HandshakeOk (e : Engine) (own : ℕ → Owner) (st : EpollEngine) (h : ℕ) : HandshakePc → Prop
  | .idle => True
  | .prepare r idx roles todo =>
      own r.slot = .thread h ∧ st.tenancy r.slot = r.tenancy ∧ e.Roles roles ∧
        Prepared e r idx todo (st.conn r.slot)
  | .setup r idx roles | .lock r idx roles =>
      own r.slot = .thread h ∧ st.tenancy r.slot = r.tenancy ∧ e.Roles roles ∧
        (st.conn r.slot).Ready e r.slot idx
  | .locked r idx roles =>
      own r.slot = .thread h ∧ st.tenancy r.slot = r.tenancy ∧ e.Roles roles ∧
        (st.conn r.slot).Ready e r.slot idx ∧ st.listLock idx = some (.handshake h)
  | .add r idx roles =>
      own r.slot = .adding h idx ∧ st.tenancy r.slot = r.tenancy ∧ e.Roles roles ∧
        st.listLock idx = some (.handshake h)
  | .rollback r idx =>
      own r.slot = .thread h ∧ st.tenancy r.slot = r.tenancy ∧ (st.conn r.slot).Held e r.slot ∧
        (st.conn r.slot).registered = false ∧ st.listLock idx = some (.handshake h)
  | .stamp r | .register r =>
      r.tenancy ≤ st.tenancy r.slot ∧
        (st.tenancy r.slot = r.tenancy → (own r.slot).Settled (st.conn r.slot))
  | .unref r .call =>
      own r.slot = .thread h ∧ st.tenancy r.slot = r.tenancy ∧ (st.conn r.slot).Held e r.slot ∧
        (st.conn r.slot).registered = false
  | .unref r pc => Finalizing own st (.handshake h) r pc

def AfterUnref.keeps (garbage : List Ref) : AfterUnref → List Ref
  | .loop | .close => []
  | .relock keep _ => [keep]
  | .drained _ => garbage

namespace WorkerPc

/-- The connections that the worker has collected and not yet unreferenced. What `garbage_list`
holds from the last turn of the loop is not among them. -/
def pending (pc : WorkerPc) (garbage : List Ref) : List Ref :=
  match pc with
  | .loopTest | .exited => []
  | .wait | .events _ | .check .. | .process .. | .fatal .. | .scanLock | .scan _ | .stop | .drainLock =>
      garbage
  | .relock keep _ => [keep]
  | .drain collected => collected ++ garbage
  | .unref rest pc k => (if pc = .call then rest else rest.tail) ++ k.keeps garbage

def HoldsLock : WorkerPc → Prop
  | .scan _ | .drain _ => True
  | _ => False

def serving : WorkerPc → Option ℕ
  | .process s _ | .fatal s _ => some s
  | _ => none

end WorkerPc

/-- What a worker relies on. -/
structure WorkerOk (e : Engine) (own : ℕ → Owner) (st : EpollEngine) (w : ℕ) (pc : WorkerPc)
    (garbage : List Ref) : Prop where
  nodup : ((pc.pending garbage).map Ref.slot).Nodup
  pending : ∀ r ∈ pc.pending garbage, own r.slot = .worker w ∧ st.tenancy r.slot = r.tenancy
  finalizing : ∀ r rest u k, pc = .unref (r :: rest) u k → u ≠ .call →
    Finalizing own st (.worker w) r u
  lock : pc.HoldsLock → st.listLock w = some (.worker w)
  serving : e = .tcp → ∀ s, pc.serving = some s → own s = .listed w ∧ (st.conn s).registered = true

def AgentOk (e : Engine) (own : ℕ → Owner) (st : EpollEngine) : Agent → Prop
  | .worker w => WorkerOk e own st w (st.worker w) (st.garbage w)
  | .handshake h => HandshakeOk e own st h (st.handshake h)

def EngineInv (e : Engine) (st : EpollEngine) : Prop :=
  ∃ own, Base e own st ∧ Pcs own st ∧ ∀ a, AgentOk e own st a

/-! ### What the other threads notice -/

/-- Nothing that agent `b` relies on has changed from `st` to `st'`. -/
structure Unnoticed (own own' : ℕ → Owner) (st st' : EpollEngine) (b : Agent) : Prop where
  lock : ∀ i, st.listLock i = some b → st'.listLock i = some b
  held : ∀ s, (own s).HeldBy b → own' s = own s ∧ st'.tenancy s = st.tenancy s ∧
    (st'.conn s).slotState = (st.conn s).slotState ∧
      (st'.conn s).finalized = (st.conn s).finalized ∧
        ((st.conn s).registered = true → (st'.conn s).registered = true)
  thread : ∀ s h, b = .handshake h → (own s).OfThread h → st'.conn s = st.conn s
  mono : ∀ s, st.tenancy s ≤ st'.tenancy s
  settled : ∀ s, st'.tenancy s = st.tenancy s → (own s).Settled (st.conn s) →
    (own' s).Settled (st'.conn s)

section Frame

variable {e : Engine} {own own' : ℕ → Owner} {st st' : EpollEngine} {b : Agent}

theorem Unnoticed.of_eq (hconn : st'.conn = st.conn) (htenancy : st'.tenancy = st.tenancy)
    (hlock : ∀ i, st.listLock i = some b → st'.listLock i = some b) :
    Unnoticed own own st st' b where
  lock := hlock
  held s _ := by simp [hconn, htenancy]
  thread s _ _ _ := by rw [hconn]
  mono s := Nat.le_of_eq (by rw [htenancy])
  settled s _ hs := by rwa [hconn]

/-- A step on one slot that `b` does not hold. -/
theorem Unnoticed.touch {s₀ : ℕ} {o : Owner} {c : Conn}
    (hconn : st'.conn = Function.update st.conn s₀ c) (htenancy : st'.tenancy = st.tenancy)
    (hlock : ∀ i, st.listLock i = some b → st'.listLock i = some b)
    (hheld : ¬ (own s₀).HeldBy b)
    (hsettled : (own s₀).Settled (st.conn s₀) → o.Settled c) :
    Unnoticed own (Function.update own s₀ o) st st' b where
  lock := hlock
  held s hs := by
    have hne : s ≠ s₀ := fun h => hheld (h ▸ hs)
    simp [hconn, htenancy, hne]
  thread s h hb hs := by
    have hne : s ≠ s₀ := by
      rintro rfl
      exact hheld (hb ▸ Or.inl hs)
    simp [hconn, hne]
  mono s := Nat.le_of_eq (by rw [htenancy])
  settled s _ hs := by
    by_cases hne : s = s₀
    · subst hne
      simpa [hconn] using hsettled hs
    · simpa [hconn, hne] using hs

theorem Finalizing.frame {r : Ref} {pc : UnrefPc} (h : Finalizing own st b r pc)
    (hn : Unnoticed own own' st st' b) : Finalizing own' st' b r pc := by
  have hheld : (own r.slot).HeldBy b := by
    rw [h.1]
    cases b with
    | worker w => exact Or.inr (Or.inr rfl)
    | handshake i => exact Or.inr rfl
  obtain ⟨hown, hten, hstate, hfin, -⟩ := hn.held _ hheld
  refine ⟨hown.trans h.1, fun hpc => hfin.trans (h.2.1 hpc), hten.trans h.2.2.1, fun s hs => ?_⟩
  obtain ⟨rfl, hfree⟩ := h.2.2.2 s hs
  exact ⟨rfl, hstate.trans hfree⟩

theorem WorkerOk.frame {w : ℕ} {pc : WorkerPc} {g : List Ref} (h : WorkerOk e own st w pc g)
    (hn : Unnoticed own own' st st' (.worker w)) : WorkerOk e own' st' w pc g where
  nodup := h.nodup
  pending r hr := by
    obtain ⟨hown, hcur⟩ := h.pending r hr
    obtain ⟨hown', hten, -⟩ := hn.held r.slot (by rw [hown]; exact Or.inr (Or.inl rfl))
    exact ⟨hown'.trans hown, hten.trans hcur⟩
  finalizing r rest u k hpc hu := (h.finalizing r rest u k hpc hu).frame hn
  lock hl := hn.lock w (h.lock hl)
  serving he s hs := by
    obtain ⟨hown, hreg⟩ := h.serving he s hs
    obtain ⟨hown', -, -, -, hreg'⟩ := hn.held s (by rw [hown]; exact Or.inl rfl)
    exact ⟨hown'.trans hown, hreg' hreg⟩

theorem HandshakeOk.frame {h : ℕ} {pc : HandshakePc} (hok : HandshakeOk e own st h pc)
    (hn : Unnoticed own own' st st' (.handshake h)) : HandshakeOk e own' st' h pc := by
  have thread : ∀ {s}, own s = .thread h → own' s = .thread h ∧ st'.tenancy s = st.tenancy s ∧
      st'.conn s = st.conn s := by
    intro s hs
    have hof : (own s).OfThread h := Or.inl hs
    obtain ⟨hown, hten, -⟩ := hn.held s (Or.inl hof)
    exact ⟨hown.trans hs, hten, hn.thread s h rfl hof⟩
  cases pc with
  | idle => trivial
  | prepare r idx roles todo =>
      obtain ⟨hown, hcur, hrest⟩ := hok
      obtain ⟨h1, h2, h3⟩ := thread hown
      refine ⟨h1, h2.trans hcur, ?_⟩
      rwa [h3]
  | setup r idx roles | lock r idx roles =>
      obtain ⟨hown, hcur, hrest⟩ := hok
      obtain ⟨h1, h2, h3⟩ := thread hown
      refine ⟨h1, h2.trans hcur, ?_⟩
      rwa [h3]
  | locked r idx roles =>
      obtain ⟨hown, hcur, hroles, hready, hlock⟩ := hok
      obtain ⟨h1, h2, h3⟩ := thread hown
      exact ⟨h1, h2.trans hcur, hroles, h3 ▸ hready, hn.lock _ hlock⟩
  | add r idx roles =>
      obtain ⟨hown, hcur, hroles, hlock⟩ := hok
      obtain ⟨h1, h2, -⟩ := hn.held r.slot (Or.inl (Or.inr ⟨idx, hown⟩))
      exact ⟨h1.trans hown, h2.trans hcur, hroles, hn.lock _ hlock⟩
  | rollback r idx =>
      obtain ⟨hown, hcur, hheld, hreg, hlock⟩ := hok
      obtain ⟨h1, h2, h3⟩ := thread hown
      exact ⟨h1, h2.trans hcur, h3 ▸ hheld, h3 ▸ hreg, hn.lock _ hlock⟩
  | stamp r | register r =>
      refine ⟨Nat.le_trans hok.1 (hn.mono r.slot), fun hcur => ?_⟩
      have hten : st.tenancy r.slot = r.tenancy :=
        Nat.le_antisymm (Nat.le_trans (hn.mono r.slot) (Nat.le_of_eq hcur)) hok.1
      exact hn.settled r.slot (hcur.trans hten.symm) (hok.2 hten)
  | unref r u =>
      cases u with
      | call =>
          obtain ⟨hown, hcur, hheld, hreg⟩ := hok
          obtain ⟨h1, h2, h3⟩ := thread hown
          exact ⟨h1, h2.trans hcur, h3 ▸ hheld, h3 ▸ hreg⟩
      | exchange | poison | release | push s => exact Finalizing.frame hok hn

theorem AgentOk.frame (h : AgentOk e own st b) (hn : Unnoticed own own' st st' b)
    (hworker : ∀ w, b = .worker w → st'.worker w = st.worker w ∧ st'.garbage w = st.garbage w)
    (hhandshake : ∀ i, b = .handshake i → st'.handshake i = st.handshake i) :
    AgentOk e own' st' b := by
  cases b with
  | worker w =>
      obtain ⟨h1, h2⟩ := hworker w rfl
      show WorkerOk e own' st' w (st'.worker w) (st'.garbage w)
      rw [h1, h2]
      exact WorkerOk.frame h hn
  | handshake i =>
      show HandshakeOk e own' st' i (st'.handshake i)
      rw [hhandshake i rfl]
      exact HandshakeOk.frame h hn

end Frame

/-! ### Moving a slot to its next owner -/

section Move

variable {e : Engine} {own : ℕ → Owner} {st st' : EpollEngine} {s₀ w : ℕ} {o : Owner} {c : Conn}

theorem ListsOk.keep {l : ℕ → List ℕ} (h : ListsOk own l)
    (hin : ∀ w, o.InList w ↔ (own s₀).InList w) : ListsOk (Function.update own s₀ o) l := by
  intro w
  refine ⟨(h w).1, fun s => ?_⟩
  by_cases hs : s = s₀
  · subst hs
    rw [Function.update_self, hin, (h w).2]
  · rw [Function.update_of_ne hs, (h w).2]

theorem ListsOk.erase {l : ℕ → List ℕ} (h : ListsOk own l) (hin : (own s₀).InList w)
    (hout : ∀ v, ¬ o.InList v) :
    ListsOk (Function.update own s₀ o) (Function.update l w ((l w).erase s₀)) := by
  intro v
  by_cases hv : v = w
  · subst hv
    rw [Function.update_self]
    refine ⟨(h v).1.erase s₀, fun s => ?_⟩
    rw [(h v).1.mem_erase_iff, (h v).2]
    by_cases hs : s = s₀
    · subst hs
      simp [hout]
    · simp [hs]
  · rw [Function.update_of_ne hv]
    refine ⟨(h v).1, fun s => ?_⟩
    by_cases hs : s = s₀
    · subst hs
      rw [Function.update_self, (h v).2]
      exact iff_of_false (fun hin' => hv (hin'.unique hin)) (hout v)
    · rw [Function.update_of_ne hs, (h v).2]

theorem ListsOk.cons {l : ℕ → List ℕ} (h : ListsOk own l) (hin : ∀ v, ¬ (own s₀).InList v)
    (hout : ∀ v, o.InList v ↔ v = w) :
    ListsOk (Function.update own s₀ o) (Function.update l w (s₀ :: l w)) := by
  intro v
  by_cases hv : v = w
  · subst hv
    rw [Function.update_self]
    refine ⟨List.nodup_cons.mpr ⟨fun hmem => hin v (((h v).2 s₀).mp hmem), (h v).1⟩, fun s => ?_⟩
    by_cases hs : s = s₀
    · subst hs
      simp [hout]
    · simp [hs, (h v).2]
  · rw [Function.update_of_ne hv]
    refine ⟨(h v).1, fun s => ?_⟩
    by_cases hs : s = s₀
    · subst hs
      rw [Function.update_self, (h v).2]
      exact iff_of_false (hin v) (fun ho => hv ((hout v).mp ho))
    · rw [Function.update_of_ne hs, (h v).2]

theorem Base.move (hb : Base e own st) (hconn : st'.conn = Function.update st.conn s₀ c)
    (htenancy : st'.tenancy = st.tenancy) (hfree : st'.freeSlots = st.freeSlots)
    (hunrefs : st'.unrefs = st.unrefs) (hissued : st'.issued = st.issued)
    (hverdicts : st'.verdicts = st.verdicts)
    (hlists : ListsOk (Function.update own s₀ o) st'.connList) (hnot : own s₀ ≠ .free)
    (hslot : SlotOk e s₀ o c) (hrefs : 0 ≤ c.refs)
    (hended : (own s₀).Ended → o.Ended) : Base e (Function.update own s₀ o) st' where
  slots s := by
    by_cases hs : s = s₀
    · subst hs
      simpa [hconn] using hslot
    · simpa [hconn, hs] using hb.slots s
  refs s := by
    by_cases hs : s = s₀
    · subst hs
      simpa [hconn] using hrefs
    · simpa [hconn, hs] using hb.refs s
  bound s hs := by
    rw [htenancy]
    by_cases hs' : s = s₀
    · exact hb.bound s (hs' ▸ hnot)
    · exact hb.bound s (by simpa [hs'] using hs)
  lists := hlists
  free := by
    rw [hfree]
    refine ⟨hb.free.1, fun s hs => ?_⟩
    have hne : s ≠ s₀ := fun h => hnot (h ▸ (hb.free.2 s hs).1)
    simpa [hne] using hb.free.2 s hs
  log := by
    rw [hunrefs]
    exact hb.log
  logged u hu := by
    rw [hunrefs] at hu
    rw [htenancy]
    obtain ⟨h1, h2, h3⟩ := hb.logged u hu
    refine ⟨h1, h2, fun hcur => ?_⟩
    by_cases hs : u.ref.slot = s₀
    · rw [hs, Function.update_self]
      exact hended (hs ▸ h3 hcur)
    · rw [Function.update_of_ne hs]
      exact h3 hcur
  issued := by
    rw [hissued, htenancy]
    exact hb.issued
  verdicts := by
    rw [hverdicts, htenancy, hissued]
    exact hb.verdicts

theorem Pcs.move (hp : Pcs own st) (hconn : st'.conn = Function.update st.conn s₀ c)
    (htenancy : st'.tenancy = st.tenancy) (hhandshake : st'.handshake = st.handshake)
    (hgen : c.gen = (st.conn s₀).gen) (ho : ∀ h w, o ≠ .adding h w) :
    Pcs (Function.update own s₀ o) st' where
  gens s := by
    rw [hhandshake, htenancy, hconn]
    by_cases hs : s = s₀
    · subst hs
      rw [Function.update_self, hgen]
      exact hp.gens s
    · rw [Function.update_of_ne hs]
      exact hp.gens s
  adding s h w hs := by
    rw [hhandshake]
    by_cases hs' : s = s₀
    · subst hs'
      rw [Function.update_self] at hs
      exact absurd hs (ho h w)
    · rw [Function.update_of_ne hs'] at hs
      exact hp.adding s h w hs

/-- A step of handshake thread `h` on slot `s₀`, the only slot it works on. -/
theorem Pcs.step {h : ℕ} {pc : HandshakePc} (hp : Pcs own st)
    (hconn : st'.conn = Function.update st.conn s₀ c)
    (htenancy : ∀ s, s ≠ s₀ → st'.tenancy s = st.tenancy s)
    (hhandshake : st'.handshake = Function.update st.handshake h pc)
    (hgen : c.gen = genOf (st'.tenancy s₀) ∨ pc.GenPending s₀)
    (hpending : ∀ s, s ≠ s₀ → ¬ (st.handshake h).GenPending s)
    (hadd : ∀ i w, o = .adding i w → i = h ∧ ∃ r roles, pc = .add r w roles ∧ r.slot = s₀)
    (hadding : ∀ s w, s ≠ s₀ → own s ≠ .adding h w) : Pcs (Function.update own s₀ o) st' where
  gens s := by
    rw [hhandshake, hconn]
    by_cases hs : s = s₀
    · subst hs
      rw [Function.update_self]
      exact hgen.imp_right fun hpc => ⟨h, by rwa [Function.update_self]⟩
    · rw [Function.update_of_ne hs, htenancy s hs]
      refine (hp.gens s).imp_right fun ⟨i, hi⟩ => ⟨i, ?_⟩
      rwa [Function.update_of_ne]
      rintro rfl
      exact hpending s hs hi
  adding s i w hs := by
    rw [hhandshake]
    by_cases hs' : s = s₀
    · subst hs'
      rw [Function.update_self] at hs
      obtain ⟨rfl, hpc⟩ := hadd i w hs
      rwa [Function.update_self]
    · rw [Function.update_of_ne hs'] at hs
      have hne : i ≠ h := by
        rintro rfl
        exact hadding s w hs' hs
      rw [Function.update_of_ne hne]
      exact hp.adding s i w hs

end Move

end FiveGProxy
