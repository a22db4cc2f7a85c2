import FiveGProxy.Slots.Transition

/-!
# One finalizer for each tenancy

A second `conn_unref` may take the reference of a later connection of the slot, but the reference is
stored only once in a tenancy and whoever takes it runs `conn_finalize`. So a slot is, in every run,
either free, or occupied by the thread that fills it in or by the one that finalizes it, or it may
hold the one reference.
-/

namespace FiveGProxy

namespace EpollEngine

/-- The call of `conn_unref` that the thread is in. -/
def unrefAt (st : EpollEngine) : Agent → Option (Ref × UnrefPc)
  | .worker w =>
      match st.worker w with
      | .unref (r :: _) pc _ => some (r, pc)
      | _ => none
  | .handshake h =>
      match st.handshake h with
      | .unref r pc => some (r, pc)
      | _ => none

def prepareAt (st : EpollEngine) : Agent → Option (Ref × List Store)
  | .worker _ => none
  | .handshake h =>
      match st.handshake h with
      | .prepare r _ _ todo => some (r, todo)
      | _ => none

/-- Thread `a` has slot `s` for itself: it has not yet stored the reference, or it has taken it. -/
def Occupies (st : EpollEngine) (a : Agent) (s : ℕ) : Prop :=
  (∃ r todo, st.prepareAt a = some (r, todo) ∧ .refs ∈ todo ∧ r.slot = s) ∨
    ∃ r pc, st.unrefAt a = some (r, pc) ∧ pc ≠ .call ∧ r.slot = s

end EpollEngine

/-- The reference is stored once, behind `memset` and the number of the slot. -/
def StoresInOrder : List Store → Prop
  | [] => True
  | x :: todo =>
      (x = .clear → .slot ∈ todo) ∧ (x = .slot → .refs ∈ todo ∧ .slot ∉ todo) ∧
        (x = .refs → .refs ∉ todo ∧ .slot ∉ todo) ∧ (.slot ∈ todo → .refs ∈ todo) ∧
        StoresInOrder todo

theorem storesInOrder_prepare (e : Engine) (g : BitVec 32) (idx : ℕ) :
    StoresInOrder (slotAcquireStores g ++ handoffStores e idx) := by
  cases e <;> simp [slotAcquireStores, handoffStores, StoresInOrder]

/-! ### What a step does -/

/-- The fields that the allocator of slots stores. -/
def Conn.entry (c : Conn) := (c.gen, c.slot, c.finalized, c.slotState)

/-- Nothing but the program counter of thread `a`, and fields that the reference does not depend
on. -/
structure StepFrame (a : Agent) (st st' : EpollEngine) : Prop where
  tenancy : st'.tenancy = st.tenancy
  unrefAt : ∀ b, b ≠ a → st'.unrefAt b = st.unrefAt b
  prepareAt : ∀ b, b ≠ a → st'.prepareAt b = st.prepareAt b

/-- The three kinds of steps of a thread: a store into a slot that it fills in, a step of
`conn_unref`, and all others. -/
inductive AgentStep (e : Engine) (a : Agent) (st st' : EpollEngine) : Prop
  | store (r : Ref) (x : Store) (todo : List Store)
      (before : st.prepareAt a = some (r, x :: todo)) (after : st'.prepareAt a = some (r, todo))
      (unref : st.unrefAt a = none ∧ st'.unrefAt a = none)
      (conn : st'.conn = Function.update st.conn r.slot (x.apply e r.slot (st.conn r.slot)))
      (free : st'.freeSlots = st.freeSlots)
  | unref (r : Ref) (pc : UnrefPc) (mid : EpollEngine) (pc' : Option UnrefPc)
      (before : st.unrefAt a = some (r, pc)) (step : st.unrefStep r pc = some (mid, pc'))
      (prepare : st.prepareAt a = none ∧ st'.prepareAt a = none)
      (conn : st'.conn = mid.conn) (free : st'.freeSlots = mid.freeSlots)
      (after : ∀ u, pc' = some u → st'.unrefAt a = some (r, u))
      (done : pc' = none → ∀ q u, st'.unrefAt a = some (q, u) → u = .call)
  | other (before : st.unrefAt a = none)
      (after : ∀ q u, st'.unrefAt a = some (q, u) → u = .call)
      (prepared : ∀ r todo, st.prepareAt a = some (r, todo) → todo = [])
      (prepare : st'.prepareAt a = none)
      (conn : ∀ s, (st'.conn s).refs = (st.conn s).refs ∧ (st'.conn s).slot = (st.conn s).slot)
      (free : st'.freeSlots = st.freeSlots)
      (entry : ∀ s, (st'.conn s).entry = (st.conn s).entry)

section

variable {e : Engine} {st st' : EpollEngine} {w h : ℕ}

theorem StepFrame.worker {pc : WorkerPc} (htenancy : st'.tenancy = st.tenancy)
    (hworker : st'.worker = Function.update st.worker w pc)
    (hhandshake : st'.handshake = st.handshake) : StepFrame (.worker w) st st' := by
  refine ⟨htenancy, fun b hb => ?_, fun b _ => ?_⟩
  · cases b with
    | worker v =>
        have hv : v ≠ w := fun hv => hb (congrArg Agent.worker hv)
        simp [EpollEngine.unrefAt, hworker, hv]
    | handshake i => simp [EpollEngine.unrefAt, hhandshake]
  · cases b with
    | worker v => rfl
    | handshake i => simp [EpollEngine.prepareAt, hhandshake]

theorem StepFrame.handshake {pc : HandshakePc} (htenancy : st'.tenancy = st.tenancy)
    (hworker : st'.worker = st.worker)
    (hhandshake : st'.handshake = Function.update st.handshake h pc) :
    StepFrame (.handshake h) st st' := by
  refine ⟨htenancy, fun b hb => ?_, fun b hb => ?_⟩
  · cases b with
    | worker v => simp [EpollEngine.unrefAt, hworker]
    | handshake i =>
        have hi : i ≠ h := fun hi => hb (congrArg Agent.handshake hi)
        simp [EpollEngine.unrefAt, hhandshake, hi]
  · cases b with
    | worker v => rfl
    | handshake i =>
        have hi : i ≠ h := fun hi => hb (congrArg Agent.handshake hi)
        simp [EpollEngine.prepareAt, hhandshake, hi]

def SameSlots (st st' : EpollEngine) : Prop :=
  (∀ s, (st'.conn s).refs = (st.conn s).refs ∧ (st'.conn s).slot = (st.conn s).slot) ∧
    st'.freeSlots = st.freeSlots

theorem SameSlots.rfl : SameSlots st st := ⟨fun _ => ⟨Eq.refl _, Eq.refl _⟩, Eq.refl _⟩

theorem SameSlots.setConn {s : ℕ} {c : Conn} (hrefs : c.refs = (st.conn s).refs)
    (hslot : c.slot = (st.conn s).slot) : SameSlots st (st.setConn s c) := by
  refine ⟨fun t => ?_, Eq.refl _⟩
  by_cases ht : t = s
  · subst ht
    simp [EpollEngine.setConn, hrefs, hslot]
  · simp [EpollEngine.setConn, ht]

def SameTable (st st' : EpollEngine) : Prop :=
  SameSlots st st' ∧ ∀ s, (st'.conn s).entry = (st.conn s).entry

theorem SameTable.rfl : SameTable st st := ⟨.rfl, fun _ => Eq.refl _⟩

theorem SameTable.setConn {s : ℕ} {c : Conn} (hrefs : c.refs = (st.conn s).refs)
    (hentry : c.entry = (st.conn s).entry) : SameTable st (st.setConn s c) := by
  refine ⟨.setConn hrefs ?_, fun t => ?_⟩
  · simp only [Conn.entry, Prod.mk.injEq] at hentry
    exact hentry.2.1
  · by_cases ht : t = s
    · subst ht
      simp [EpollEngine.setConn, hentry]
    · simp [EpollEngine.setConn, ht]

def WorkerPc.NotInFinalize : WorkerPc → Prop
  | .unref (_ :: _) pc _ => pc = .call
  | _ => True

theorem AgentStep.otherWorker {pc : WorkerPc} (hbefore : st.unrefAt (.worker w) = none)
    (hworker : st'.worker = Function.update st.worker w pc) (hpc : pc.NotInFinalize)
    (hsame : SameTable st st') : AgentStep e (.worker w) st st' := by
  refine .other hbefore ?_ nofun rfl hsame.1.1 hsame.1.2 hsame.2
  intro q u hat
  rw [EpollEngine.unrefAt, hworker, Function.update_self] at hat
  split at hat
  · cases hat
    exact hpc
  · cases hat

theorem AgentStep.otherHandshake {pc : HandshakePc}
    (hbefore : st.unrefAt (.handshake h) = none)
    (hprepared : ∀ r todo, st.prepareAt (.handshake h) = some (r, todo) → todo = [])
    (hhandshake : st'.handshake = Function.update st.handshake h pc)
    (hpc : ∀ r u, pc = .unref r u → u = .call)
    (hprepare : ∀ r idx roles todo, pc ≠ .prepare r idx roles todo) (hsame : SameTable st st') :
    AgentStep e (.handshake h) st st' := by
  refine .other hbefore ?_ hprepared ?_ hsame.1.1 hsame.1.2 hsame.2
  · intro q u hat
    rw [EpollEngine.unrefAt, hhandshake, Function.update_self] at hat
    split at hat
    · cases hat
      exact hpc _ _ rfl
    · cases hat
  · rw [EpollEngine.prepareAt, hhandshake, Function.update_self]
    split
    · exact absurd rfl (hprepare _ _ _ _)
    · rfl

theorem WorkerPc.notInFinalize_call (l : List Ref) (k : AfterUnref) :
    (WorkerPc.unref l .call k).NotInFinalize := by
  cases l with
  | nil => trivial
  | cons r l => rfl

theorem workerUnref_kind {r : Ref} {rest : List Ref} {u : UnrefPc} {k : AfterUnref}
    {mid : EpollEngine} {u' : Option UnrefPc} (hpc : st.worker w = .unref (r :: rest) u k)
    (hunref : st.unrefStep r u = some (mid, u')) :
    StepFrame (.worker w) st (mid.setWorker w (EpollEngine.afterUnref r rest k u')) ∧
      AgentStep e (.worker w) st (mid.setWorker w (EpollEngine.afterUnref r rest k u')) := by
  have hframe := EpollEngine.unref_frame hunref
  refine ⟨.worker hframe.tenancy (congrArg (Function.update · w _) hframe.worker)
    hframe.handshake, ?_⟩
  refine .unref r u mid u' (by simp [EpollEngine.unrefAt, hpc]) hunref ⟨rfl, rfl⟩ rfl rfl ?_ ?_
  · rintro u rfl
    simp [EpollEngine.unrefAt, EpollEngine.setWorker, EpollEngine.afterUnref]
  · rintro rfl q u hat
    cases rest with
    | nil => simp [EpollEngine.unrefAt, EpollEngine.setWorker, EpollEngine.afterUnref] at hat
    | cons q' rest =>
        simp only [EpollEngine.unrefAt, EpollEngine.setWorker, EpollEngine.afterUnref,
          Function.update_self, Option.some.injEq, Prod.mk.injEq] at hat
        exact hat.2.symm

theorem workerStep_kind {choice : Bool} {batch : List (BitVec 64)}
    (hstep : st.workerStep e w choice batch = some st') :
    StepFrame (.worker w) st st' ∧ AgentStep e (.worker w) st st' := by
  have moves : ∀ {next : EpollEngine} {pc pc' : WorkerPc}, st.worker w = pc →
      (∀ r rest u k, pc ≠ .unref (r :: rest) u k) →
      next.worker = Function.update st.worker w pc' → next.handshake = st.handshake →
      next.tenancy = st.tenancy → SameTable st next → pc'.NotInFinalize →
      StepFrame (.worker w) st next ∧ AgentStep e (.worker w) st next := by
    intro next pc pc' hpc hother hworker hhandshake htenancy hsame hpc'
    refine ⟨.worker htenancy hworker hhandshake, .otherWorker ?_ hworker hpc' hsame⟩
    rw [EpollEngine.unrefAt, hpc]
    split
    · exact absurd rfl (hother _ _ _ _)
    · rfl
  have hcall := WorkerPc.notInFinalize_call
  have unlinked : ∀ {s}, SameTable st (st.unlink w s) := fun {s} =>
    .setConn rfl rfl
  cases EpollEngine.worker_transition hstep with
  | unref r rest u k st₁ u' hpc hunref => exact workerUnref_kind hpc hunref
  | batchDone hpc | scanEnd hpc | drained u hpc =>
      exact moves hpc (by rintro _ _ _ _ ⟨⟩) rfl rfl rfl .rfl (hcall _ _)
  | drainFull collected s rest hpc | drainEnd collected hpc =>
      exact moves hpc (by rintro _ _ _ _ ⟨⟩) rfl rfl rfl .rfl (hcall _ _)
  | lose s rest hpc | close s rest hpc | scanClose s hpc | scanLose s hpc =>
      exact moves hpc (by rintro _ _ _ _ ⟨⟩) rfl rfl rfl unlinked trivial
  | scanFull s hpc => exact moves hpc (by rintro _ _ _ _ ⟨⟩) rfl rfl rfl unlinked (hcall _ _)
  | drainClose collected s rest hpc =>
      exact moves hpc (by rintro _ _ _ _ ⟨⟩) rfl rfl rfl (.setConn rfl rfl) trivial
  | _ =>
      have hpc := ‹st.worker w = _›
      exact moves hpc (by rintro _ _ _ _ ⟨⟩) rfl rfl rfl .rfl trivial

theorem handshakeUnref_kind {r : Ref} {u : UnrefPc} {mid : EpollEngine} {u' : Option UnrefPc}
    (hpc : st.handshake h = .unref r u) (hunref : st.unrefStep r u = some (mid, u'))
    {pc : HandshakePc} (hnext : ∀ v, u' = some v → pc = .unref r v) (hlast : u' = none → pc = .idle) :
    StepFrame (.handshake h) st (mid.setHandshake h pc) ∧
      AgentStep e (.handshake h) st (mid.setHandshake h pc) := by
  have hframe := EpollEngine.unref_frame hunref
  refine ⟨.handshake hframe.tenancy hframe.worker
    (congrArg (Function.update · h _) hframe.handshake), ?_⟩
  refine .unref r u mid u' (by simp [EpollEngine.unrefAt, hpc]) hunref ?_ rfl rfl ?_ ?_
  · refine ⟨by simp [EpollEngine.prepareAt, hpc], ?_⟩
    cases u' with
    | none => simp [EpollEngine.prepareAt, EpollEngine.setHandshake, hlast rfl]
    | some v => simp [EpollEngine.prepareAt, EpollEngine.setHandshake, hnext v rfl]
  · rintro v rfl
    simp [EpollEngine.unrefAt, EpollEngine.setHandshake, hnext v rfl]
  · rintro rfl q v hat
    simp [EpollEngine.unrefAt, EpollEngine.setHandshake, hlast rfl] at hat

theorem handshakeStep_kind {ok : Bool} (hstep : st.handshakeStep e h ok = some st') :
    StepFrame (.handshake h) st st' ∧ AgentStep e (.handshake h) st st' := by
  have moves : ∀ {next : EpollEngine} {pc pc' : HandshakePc}, st.handshake h = pc →
      (∀ r u, pc ≠ .unref r u) → (∀ r idx roles x todo, pc ≠ .prepare r idx roles (x :: todo)) →
      next.worker = st.worker → next.handshake = Function.update st.handshake h pc' →
      next.tenancy = st.tenancy → SameTable st next → (∀ r u, pc' = .unref r u → u = .call) →
      (∀ r idx roles todo, pc' ≠ .prepare r idx roles todo) →
      StepFrame (.handshake h) st next ∧ AgentStep e (.handshake h) st next := by
    intro next pc pc' hpc hunref hprepare hworker hhandshake htenancy hsame hcall hfilled
    refine ⟨.handshake htenancy hworker hhandshake,
      .otherHandshake ?_ ?_ hhandshake hcall hfilled hsame⟩
    · rw [EpollEngine.unrefAt, hpc]
      split
      · exact absurd rfl (hunref _ _)
      · rfl
    · intro r todo hat
      rw [EpollEngine.prepareAt, hpc] at hat
      split at hat
      · cases hat
        cases todo with
        | nil => rfl
        | cons x todo => exact absurd rfl (hprepare _ _ _ _ _)
      · cases hat
  have hcall : ∀ {r : Ref}, ∀ q u, HandshakePc.unref r .call = .unref q u → u = .call := by
    rintro _ _ _ ⟨⟩
    rfl
  cases EpollEngine.handshake_transition hstep with
  | store r idx roles x todo hpc =>
      refine ⟨.handshake rfl rfl rfl, .store r x todo ?_ ?_ ?_ rfl rfl⟩
      · simp [EpollEngine.prepareAt, hpc]
      · simp [EpollEngine.prepareAt, EpollEngine.setHandshake]
      · simp [EpollEngine.unrefAt, EpollEngine.setHandshake, hpc]
  | unref r u st₁ u' hpc hunref =>
      refine handshakeUnref_kind hpc hunref ?_ (by rintro ⟨⟩)
      rintro v ⟨⟩
      rfl
  | finalized r u st₁ hpc hunref =>
      exact handshakeUnref_kind hpc hunref (by rintro _ ⟨⟩) fun _ => rfl
  | setupFailed r idx roles hpc | refuse r idx roles hpc | rollback r idx hpc =>
      exact moves hpc (by rintro _ _ ⟨⟩) (by rintro _ _ _ _ _ ⟨⟩) rfl rfl rfl .rfl hcall
        (by rintro _ _ _ _ ⟨⟩)
  | setupTcp r idx roles hpc | addFailed r idx role roles hpc | register r hpc =>
      exact moves hpc (by rintro _ _ ⟨⟩) (by rintro _ _ _ _ _ ⟨⟩) rfl rfl rfl (.setConn rfl rfl)
        (by rintro _ _ ⟨⟩) (by rintro _ _ _ _ ⟨⟩)
  | added r idx hpc =>
      refine moves hpc (by rintro _ _ ⟨⟩) (by rintro _ _ _ _ _ ⟨⟩) rfl rfl rfl .rfl ?_ ?_
      · cases e <;> rintro _ _ ⟨⟩
      · cases e <;> rintro _ _ _ _ ⟨⟩
  | _ =>
      have hpc := ‹st.handshake h = _›
      exact moves hpc (by rintro _ _ ⟨⟩) (by rintro _ _ _ _ _ ⟨⟩) rfl rfl rfl .rfl
        (by rintro _ _ ⟨⟩) (by rintro _ _ _ _ ⟨⟩)

/-! ### The invariant -/

/-- A free slot holds no reference, and neither does one that is occupied. -/
structure SlotInv (e : Engine) (st : EpollEngine) : Prop where
  nodup : st.freeSlots.Nodup
  free : ∀ s ∈ st.freeSlots, s < e.slotCount ∧ (st.conn s).refs ≤ 0
  live : ∀ s, (st.conn s).refs ≤ 1 ∧ ((st.conn s).refs = 1 → s < e.slotCount)
  occupied : ∀ a s, st.Occupies a s →
    s < e.slotCount ∧ s ∉ st.freeSlots ∧ (st.conn s).refs ≤ 0
  unique : ∀ a b s, st.Occupies a s → st.Occupies b s → a = b
  stores : ∀ a r todo, st.prepareAt a = some (r, todo) → StoresInOrder todo
  number : ∀ s < e.slotCount, s ∉ st.freeSlots →
    (∀ a r todo, st.prepareAt a = some (r, todo) → r.slot = s → .slot ∉ todo) →
      (st.conn s).slot = s
  push : ∀ a r s, st.unrefAt a = some (r, .push s) → s = r.slot

theorem SlotInv.init (e : Engine) : SlotInv e (EpollEngine.init e) where
  nodup := List.pairwise_reverse.mpr (List.nodup_range.imp Ne.symm)
  free s hs := ⟨List.mem_range.mp (List.mem_reverse.mp hs), Int.le_refl 0⟩
  live s := ⟨(by decide : (0 : ℤ) ≤ 1), nofun⟩
  occupied a s := by
    rintro (⟨r, todo, hat, -⟩ | ⟨r, pc, hat, -⟩) <;> cases a <;> cases hat
  unique a b s := by
    rintro (⟨r, todo, hat, -⟩ | ⟨r, pc, hat, -⟩) <;> cases a <;> cases hat
  stores a r todo hat := by cases a <;> cases hat
  number s hs hfree := absurd (List.mem_reverse.mpr (List.mem_range.mpr hs)) hfree
  push a r s hat := by cases a <;> cases hat

variable {a b : Agent}

theorem StepFrame.occupies (hframe : StepFrame a st st') (hb : b ≠ a) {s : ℕ} :
    st'.Occupies b s ↔ st.Occupies b s := by
  unfold EpollEngine.Occupies
  rw [hframe.unrefAt b hb, hframe.prepareAt b hb]

theorem StoresInOrder.refs_of_slot : ∀ {todo : List Store}, StoresInOrder todo →
    .slot ∈ todo → .refs ∈ todo
  | x :: todo, ⟨_, hslot, _, hrefs, _⟩, hmem => by
      rcases List.mem_cons.mp hmem with rfl | hmem
      · exact List.mem_cons_of_mem _ (hslot rfl).1
      · exact List.mem_cons_of_mem _ (hrefs hmem)

theorem Store.apply_other {x : Store} (s : ℕ) (c : Conn) (hclear : x ≠ .clear)
    (hslot : x ≠ .slot) (hrefs : x ≠ .refs) :
    (x.apply e s c).refs = c.refs ∧ (x.apply e s c).slot = c.slot := by
  cases x <;> first | exact ⟨rfl, rfl⟩ | contradiction

theorem SlotInv.same (hinv : SlotInv e st) (hframe : StepFrame a st st') (hsame : SameSlots st st')
    (hocc : ∀ s, st'.Occupies a s → st.Occupies a s)
    (hstores : ∀ r todo, st'.prepareAt a = some (r, todo) → StoresInOrder todo)
    (hslot : ∀ r todo, st.prepareAt a = some (r, todo) → .slot ∈ todo →
      ∃ todo', st'.prepareAt a = some (r, todo') ∧ .slot ∈ todo')
    (hpush : ∀ r s, st'.unrefAt a = some (r, .push s) → s = r.slot) : SlotInv e st' := by
  obtain ⟨hconn, hfree⟩ := hsame
  have hall : ∀ {b s}, st'.Occupies b s → st.Occupies b s := by
    intro b s hb
    by_cases hba : b = a
    · exact hba ▸ hocc s (hba ▸ hb)
    · exact (hframe.occupies hba).mp hb
  refine ⟨hfree ▸ hinv.nodup, fun s hs => ?_, fun s => ?_, fun b s hb => ?_,
    fun b c s hb hc => hinv.unique b c s (hall hb) (hall hc), fun b r todo hat => ?_,
    fun s hs hnot hdone => ?_, fun b r s hat => ?_⟩
  · rw [(hconn s).1]
    exact hinv.free s (hfree ▸ hs)
  · rw [(hconn s).1]
    exact hinv.live s
  · rw [hfree, (hconn s).1]
    exact hinv.occupied b s (hall hb)
  · by_cases hba : b = a
    · exact hstores r todo (hba ▸ hat)
    · exact hinv.stores b r todo ((hframe.prepareAt b hba) ▸ hat)
  · rw [(hconn s).2]
    refine hinv.number s hs (hfree ▸ hnot) fun b r todo hat hr hmem => ?_
    by_cases hba : b = a
    · obtain ⟨todo', hat', hmem'⟩ := hslot r todo (hba ▸ hat) hmem
      exact hdone a r todo' hat' hr hmem'
    · exact hdone b r todo ((hframe.prepareAt b hba).trans hat) hr hmem
  · by_cases hba : b = a
    · exact hpush r s (hba ▸ hat)
    · exact hinv.push b r s ((hframe.unrefAt b hba) ▸ hat)

/-- A step on the reference and the number of slot `t`. -/
theorem SlotInv.touch (hinv : SlotInv e st) (hframe : StepFrame a st st') {t : ℕ} {c : Conn}
    (hconn : st'.conn = Function.update st.conn t c) (hfree : st'.freeSlots = st.freeSlots)
    (hlive : c.refs ≤ 1 ∧ (c.refs = 1 → t < e.slotCount)) (hidle : t ∈ st.freeSlots → c.refs ≤ 0)
    (hocc : ∀ s, st'.Occupies a s → s = t ∧ t < e.slotCount ∧ t ∉ st.freeSlots ∧ c.refs ≤ 0)
    (hothers : (∃ b ≠ a, st.Occupies b t) → c.refs ≤ 0 ∧ ¬st'.Occupies a t)
    (hstores : ∀ r todo, st'.prepareAt a = some (r, todo) → StoresInOrder todo)
    (hnumber : t ∉ st.freeSlots → t < e.slotCount →
      (∀ b r todo, st'.prepareAt b = some (r, todo) → r.slot = t → .slot ∉ todo) → c.slot = t)
    (hslot : ∀ r todo, st.prepareAt a = some (r, todo) → .slot ∈ todo → r.slot = t)
    (hpush : ∀ r s, st'.unrefAt a = some (r, .push s) → s = r.slot) : SlotInv e st' := by
  have hne : ∀ {s}, s ≠ t → st'.conn s = st.conn s := by
    intro s hs
    rw [hconn, Function.update_of_ne hs]
  have hself : st'.conn t = c := by rw [hconn, Function.update_self]
  refine ⟨hfree ▸ hinv.nodup, fun s hs => ?_, fun s => ?_, fun b s hb => ?_,
    fun b d s hb hd => ?_, fun b r todo hat => ?_, fun s hs hnot hdone => ?_, fun b r s hat => ?_⟩
  · rw [hfree] at hs
    by_cases hst : s = t
    · subst hst
      rw [hself]
      exact ⟨(hinv.free s hs).1, hidle hs⟩
    · rw [hne hst]
      exact hinv.free s hs
  · by_cases hst : s = t
    · subst hst
      rw [hself]
      exact hlive
    · rw [hne hst]
      exact hinv.live s
  · rw [hfree]
    by_cases hba : b = a
    · subst hba
      obtain ⟨rfl, hbound, hnot, hrefs⟩ := hocc s hb
      rw [hself]
      exact ⟨hbound, hnot, hrefs⟩
    · have hold := (hframe.occupies hba).mp hb
      obtain ⟨hbound, hnot, hrefs⟩ := hinv.occupied b s hold
      refine ⟨hbound, hnot, ?_⟩
      by_cases hst : s = t
      · subst hst
        rw [hself]
        exact (hothers ⟨b, hba, hold⟩).1
      · rw [hne hst]
        exact hrefs
  · have hsplit : ∀ {x y}, x = a → y ≠ a → st'.Occupies x s → ¬st'.Occupies y s := by
      rintro x y rfl hy hx hyocc
      obtain ⟨rfl, -⟩ := hocc s hx
      exact (hothers ⟨y, hy, (hframe.occupies hy).mp hyocc⟩).2 hx
    by_cases hba : b = a <;> by_cases hda : d = a
    · exact hba.trans hda.symm
    · exact absurd hd (hsplit hba hda hb)
    · exact absurd hb (hsplit hda hba hd)
    · exact hinv.unique b d s ((hframe.occupies hba).mp hb) ((hframe.occupies hda).mp hd)
  · by_cases hba : b = a
    · exact hstores r todo (hba ▸ hat)
    · exact hinv.stores b r todo ((hframe.prepareAt b hba) ▸ hat)
  · rw [hfree] at hnot
    by_cases hst : s = t
    · subst hst
      rw [hself]
      exact hnumber hnot hs hdone
    · rw [hne hst]
      refine hinv.number s hs hnot fun b r todo hat hr hmem => ?_
      by_cases hba : b = a
      · exact hst (hr ▸ hslot r todo (hba ▸ hat) hmem)
      · exact hdone b r todo ((hframe.prepareAt b hba).trans hat) hr hmem
  · by_cases hba : b = a
    · exact hpush r s (hba ▸ hat)
    · exact hinv.push b r s ((hframe.unrefAt b hba) ▸ hat)

theorem SlotInv.store (hinv : SlotInv e st) (hframe : StepFrame a st st') {r : Ref} {x : Store}
    {todo : List Store} (hbefore : st.prepareAt a = some (r, x :: todo))
    (hafter : st'.prepareAt a = some (r, todo)) (hunref : st'.unrefAt a = none)
    (hconn : st'.conn = Function.update st.conn r.slot (x.apply e r.slot (st.conn r.slot)))
    (hfree : st'.freeSlots = st.freeSlots) : SlotInv e st' := by
  obtain ⟨hclear, hslot, hrefs, hlater, htail⟩ := hinv.stores a r (x :: todo) hbefore
  have hocc : ∀ {s}, st'.Occupies a s ↔ .refs ∈ todo ∧ r.slot = s := by
    intro s
    constructor
    · rintro (⟨r', todo', hat, hmem, rfl⟩ | ⟨r', pc, hat, -⟩)
      · rw [hafter] at hat
        cases hat
        exact ⟨hmem, rfl⟩
      · rw [hunref] at hat
        cases hat
    · rintro ⟨hmem, rfl⟩
      exact .inl ⟨r, todo, hafter, hmem, rfl⟩
  have hstores : ∀ r todo, st'.prepareAt a = some (r, todo) → StoresInOrder todo := by
    rintro r' todo' hat
    rw [hafter] at hat
    cases hat
    exact htail
  have hpush : ∀ r s, st'.unrefAt a = some (r, .push s) → s = r.slot := by
    intro r s hat
    rw [hunref] at hat
    cases hat
  by_cases hfill : .refs ∈ x :: todo
  · obtain ⟨hbound, hnot, hidle⟩ := hinv.occupied a r.slot (.inl ⟨r, _, hbefore, hfill, rfl⟩)
    have halone : ¬∃ b ≠ a, st.Occupies b r.slot := by
      rintro ⟨b, hba, hb⟩
      exact hba (hinv.unique b a r.slot hb (.inl ⟨r, _, hbefore, hfill, rfl⟩))
    have hrslot : ∀ r' todo', st.prepareAt a = some (r', todo') → .slot ∈ todo' →
        r'.slot = r.slot := by
      intro r' todo' hat _
      rw [hbefore] at hat
      cases hat
      rfl
    have hnumber : .slot ∉ x :: todo → (st.conn r.slot).slot = r.slot := by
      intro hdone
      refine hinv.number r.slot hbound hnot fun b r' todo' hat hr hmem => ?_
      have hb := hinv.unique b a r.slot
        (.inl ⟨r', todo', hat, (hinv.stores b r' todo' hat).refs_of_slot hmem, hr⟩)
        (.inl ⟨r, _, hbefore, hfill, rfl⟩)
      rw [hb, hbefore] at hat
      cases hat
      exact hdone hmem
    by_cases hx : x = .refs
    · subst hx
      obtain ⟨honce, hset⟩ := hrefs rfl
      refine hinv.touch hframe hconn hfree ⟨Int.le_refl 1, fun _ => hbound⟩
        (fun h => absurd h hnot) (fun s hs => absurd (hocc.mp hs).1 honce)
        (fun h => absurd h halone) hstores (fun _ _ _ => ?_) hrslot hpush
      exact hnumber (by simpa using hset)
    · have hmem : .refs ∈ todo := (List.mem_cons.mp hfill).resolve_left fun h => hx h.symm
      have hle : (x.apply e r.slot (st.conn r.slot)).refs ≤ 0 := by
        cases x <;> first | exact hidle | exact Int.le_refl 0 | contradiction
      refine hinv.touch hframe hconn hfree ⟨by omega, by omega⟩ (fun _ => hle) ?_
        (fun h => absurd h halone) hstores (fun _ _ hdone => ?_) hrslot hpush
      · intro s hs
        exact ⟨(hocc.mp hs).2.symm, hbound, hnot, hle⟩
      · have hdone' := hdone a r todo hafter rfl
        by_cases hxs : x = .slot
        · subst hxs
          rfl
        · have hxc : x ≠ .clear := fun h => hdone' (hclear h)
          rw [(Store.apply_other r.slot _ hxc hxs hx).2]
          refine hnumber fun hmem => ?_
          rcases List.mem_cons.mp hmem with h | h
          · exact hxs h.symm
          · exact hdone' h
  · -- the reference has been stored, and nothing about it changes any more
    have hrest : .refs ∉ todo := fun h => hfill (List.mem_cons_of_mem _ h)
    have hdone : .slot ∉ todo := fun h => hrest (hlater h)
    have hsame := Store.apply_other (e := e) r.slot (st.conn r.slot) (fun h => hdone (hclear h))
      (fun h => hrest (hslot h).1) (fun h => hfill (h ▸ List.mem_cons_self))
    have hsame' : SameSlots st (st.setConn r.slot (x.apply e r.slot (st.conn r.slot))) :=
      .setConn hsame.1 hsame.2
    refine hinv.same hframe ⟨fun s => ?_, hfree⟩ (fun s hs => absurd (hocc.mp hs).1 hrest) hstores
      ?_ hpush
    · rw [hconn]
      exact hsame'.1 s
    · intro r' todo' hat hmem
      rw [hbefore] at hat
      cases hat
      rcases List.mem_cons.mp hmem with h | h
      · exact absurd (hslot h.symm).1 hrest
      · exact absurd h hdone

/-- What the thread relies on behind the call of `conn_unref`. -/
theorem SlotInv.finalizing (hinv : SlotInv e st) {r : Ref} {pc : UnrefPc}
    (hat : st.unrefAt a = some (r, pc)) (hpc : pc ≠ .call) (hprepare : st.prepareAt a = none) :
    r.slot < e.slotCount ∧ r.slot ∉ st.freeSlots ∧ (st.conn r.slot).refs ≤ 0 ∧
      (st.conn r.slot).slot = r.slot := by
  have hocc : st.Occupies a r.slot := .inr ⟨r, pc, hat, hpc, rfl⟩
  obtain ⟨hbound, hnot, hrefs⟩ := hinv.occupied a r.slot hocc
  refine ⟨hbound, hnot, hrefs, hinv.number r.slot hbound hnot fun b r' todo hb hr hmem => ?_⟩
  have hba := hinv.unique b a r.slot
    (.inl ⟨r', todo, hb, (hinv.stores b r' todo hb).refs_of_slot hmem, hr⟩) hocc
  rw [hba, hprepare] at hb
  cases hb

/-- The reference is dropped; who drops the last one has the slot for itself from then on. -/
theorem SlotInv.call (hinv : SlotInv e st) (hframe : StepFrame a st st') {r : Ref} {c : Conn}
    {pc' : Option UnrefPc} (hbefore : st.unrefAt a = some (r, .call))
    (hprepare : st.prepareAt a = none ∧ st'.prepareAt a = none)
    (hconn : st'.conn = Function.update st.conn r.slot c)
    (hrefs : c.refs = (st.conn r.slot).refs - 1) (hslot : c.slot = (st.conn r.slot).slot)
    (hfree : st'.freeSlots = st.freeSlots)
    (hpc : pc' = if (st.conn r.slot).refs = 1 then some .exchange else none)
    (hafter : ∀ u, pc' = some u → st'.unrefAt a = some (r, u))
    (hdone : pc' = none → ∀ q u, st'.unrefAt a = some (q, u) → u = .call) : SlotInv e st' := by
  obtain ⟨hle, hbound⟩ := hinv.live r.slot
  have hnow : ∀ q u, st'.unrefAt a = some (q, u) → u ≠ .call →
      (st.conn r.slot).refs = 1 ∧ q = r ∧ u = .exchange := by
    intro q u hat hu
    by_cases hlast : (st.conn r.slot).refs = 1
    · rw [if_pos hlast] at hpc
      have hat' := hafter .exchange hpc
      rw [hat] at hat'
      cases hat'
      exact ⟨hlast, rfl, rfl⟩
    · rw [if_neg hlast] at hpc
      exact absurd (hdone hpc q u hat) hu
  have hocc : ∀ s, st'.Occupies a s → (st.conn r.slot).refs = 1 ∧ s = r.slot := by
    rintro s (⟨r', todo, hat, -⟩ | ⟨q, u, hat, hu, rfl⟩)
    · rw [hprepare.2] at hat
      cases hat
    · obtain ⟨hlast, rfl, -⟩ := hnow q u hat hu
      exact ⟨hlast, rfl⟩
  have hlow : c.refs ≤ 0 := by omega
  refine hinv.touch hframe hconn hfree ⟨by omega, by omega⟩ (fun _ => hlow) (fun s hs => ?_) ?_
    ?_ (fun hnot hs hprep => ?_) ?_ ?_
  · obtain ⟨hlast, rfl⟩ := hocc s hs
    refine ⟨rfl, hbound hlast, fun hmem => ?_, hlow⟩
    have hidle := (hinv.free r.slot hmem).2
    omega
  · rintro ⟨b, hba, hb⟩
    refine ⟨hlow, fun hs => ?_⟩
    have hlast := (hocc r.slot hs).1
    have hidle := (hinv.occupied b r.slot hb).2.2
    omega
  · intro r' todo hat
    rw [hprepare.2] at hat
    cases hat
  · rw [hslot]
    refine hinv.number r.slot hs hnot fun b r' todo hat hr => ?_
    by_cases hba : b = a
    · rw [hba, hprepare.1] at hat
      cases hat
    · exact hprep b r' todo ((hframe.prepareAt b hba).trans hat) hr
  · intro r' todo hat
    rw [hprepare.1] at hat
    cases hat
  · intro q s hat
    obtain ⟨-, -, hu⟩ := hnow q (.push s) hat (by rintro ⟨⟩)
    cases hu

theorem SlotInv.pushed (hinv : SlotInv e st) (hframe : StepFrame a st st') {r : Ref}
    (hbefore : st.unrefAt a = some (r, .push r.slot))
    (hprepare : st.prepareAt a = none ∧ st'.prepareAt a = none)
    (hconn : st'.conn = st.conn) (hfree : st'.freeSlots = r.slot :: st.freeSlots)
    (hdone : ∀ q u, st'.unrefAt a = some (q, u) → u = .call) : SlotInv e st' := by
  have hocc : st.Occupies a r.slot := .inr ⟨r, _, hbefore, nofun, rfl⟩
  obtain ⟨hbound, hnot, hrefs⟩ := hinv.occupied a r.slot hocc
  have hgone : ∀ s, ¬st'.Occupies a s := by
    rintro s (⟨r', todo, hat, -⟩ | ⟨q, u, hat, hu, -⟩)
    · rw [hprepare.2] at hat
      cases hat
    · exact hu (hdone q u hat)
  have hother : ∀ {b s}, st'.Occupies b s → b ≠ a ∧ st.Occupies b s := by
    intro b s hb
    have hba : b ≠ a := fun hba => hgone s (hba ▸ hb)
    exact ⟨hba, (hframe.occupies hba).mp hb⟩
  refine ⟨?_, fun s hs => ?_, fun s => ?_, fun b s hb => ?_, fun b d s hb hd => ?_,
    fun b r' todo hat => ?_, fun s hs hfar hprep => ?_, fun b q s hat => ?_⟩
  · rw [hfree]
    exact List.nodup_cons.mpr ⟨hnot, hinv.nodup⟩
  · rw [hfree] at hs
    rw [hconn]
    rcases List.mem_cons.mp hs with rfl | hs
    · exact ⟨hbound, hrefs⟩
    · exact hinv.free s hs
  · rw [hconn]
    exact hinv.live s
  · obtain ⟨hba, hold⟩ := hother hb
    obtain ⟨hs, hsnot, hsrefs⟩ := hinv.occupied b s hold
    rw [hconn, hfree]
    refine ⟨hs, fun hmem => ?_, hsrefs⟩
    rcases List.mem_cons.mp hmem with rfl | hmem
    · exact hba (hinv.unique b a r.slot hold hocc)
    · exact hsnot hmem
  · exact hinv.unique b d s (hother hb).2 (hother hd).2
  · have hba : b ≠ a := by
      rintro rfl
      rw [hprepare.2] at hat
      cases hat
    exact hinv.stores b r' todo ((hframe.prepareAt b hba) ▸ hat)
  · rw [hfree] at hfar
    rw [hconn]
    refine hinv.number s hs (fun h => hfar (List.mem_cons_of_mem _ h)) fun b r' todo hat hr => ?_
    have hba : b ≠ a := by
      rintro rfl
      rw [hprepare.1] at hat
      cases hat
    exact hprep b r' todo ((hframe.prepareAt b hba).trans hat) hr
  · have hba : b ≠ a := by
      rintro rfl
      cases hdone q (.push s) hat
    exact hinv.push b q s ((hframe.unrefAt b hba) ▸ hat)

theorem SlotInv.unref (hinv : SlotInv e st) (hframe : StepFrame a st st') {r : Ref} {pc : UnrefPc}
    {mid : EpollEngine} {pc' : Option UnrefPc} (hbefore : st.unrefAt a = some (r, pc))
    (hstep : st.unrefStep r pc = some (mid, pc'))
    (hprepare : st.prepareAt a = none ∧ st'.prepareAt a = none) (hconn : st'.conn = mid.conn)
    (hfree : st'.freeSlots = mid.freeSlots)
    (hafter : ∀ u, pc' = some u → st'.unrefAt a = some (r, u))
    (hdone : pc' = none → ∀ q u, st'.unrefAt a = some (q, u) → u = .call) : SlotInv e st' := by
  have hstores : ∀ r todo, st'.prepareAt a = some (r, todo) → StoresInOrder todo := by
    intro r' todo hat
    rw [hprepare.2] at hat
    cases hat
  have hslot : ∀ r todo, st.prepareAt a = some (r, todo) → .slot ∈ todo →
      ∃ todo', st'.prepareAt a = some (r, todo') ∧ .slot ∈ todo' := by
    intro r' todo hat
    rw [hprepare.1] at hat
    cases hat
  -- the middle of `conn_finalize`: the thread keeps the slot to itself
  have within : ∀ {q}, SameSlots st mid → pc ≠ .call → (pc' = none ∨ pc' = some q) →
      (∀ s, q = .push s → s = r.slot) → SlotInv e st' := by
    intro q hsame hpc hq hpush
    have hnow : ∀ q' u, st'.unrefAt a = some (q', u) → u = .call ∨ q' = r ∧ u = q := by
      intro q' u hat
      rcases hq with hq | hq
      · exact .inl (hdone hq q' u hat)
      · have hat' := hafter q hq
        rw [hat] at hat'
        cases hat'
        exact .inr ⟨rfl, rfl⟩
    refine hinv.same hframe ⟨fun s => ?_, hfree.trans hsame.2⟩ (fun s hs => ?_) hstores hslot ?_
    · rw [hconn]
      exact hsame.1 s
    · rcases hs with ⟨r', todo, hat, -⟩ | ⟨q', u, hat, hu, rfl⟩
      · rw [hprepare.2] at hat
        cases hat
      · obtain ⟨rfl, -⟩ := (hnow q' u hat).resolve_left hu
        exact .inr ⟨q', pc, hbefore, hpc, rfl⟩
    · intro q' s hat
      obtain ⟨rfl, hu⟩ := (hnow q' (.push s) hat).resolve_left (by rintro ⟨⟩)
      exact hpush s hu.symm
  cases pc with
  | call =>
      obtain ⟨rfl, rfl⟩ := Prod.mk.inj (Option.some.inj hstep)
      exact hinv.call hframe hbefore hprepare hconn rfl rfl hfree rfl hafter hdone
  | exchange =>
      obtain ⟨rfl, rfl⟩ := Prod.mk.inj (Option.some.inj hstep)
      refine within (q := .poison) (.setConn rfl rfl) (by rintro ⟨⟩) ?_ (by rintro _ ⟨⟩)
      exact (ite_eq_or_eq _ _ _)
  | poison =>
      simp only [EpollEngine.unrefStep] at hstep
      split at hstep
      · obtain ⟨rfl, rfl⟩ := Prod.mk.inj (Option.some.inj hstep)
        exact within (SameSlots.setConn rfl rfl) (by rintro ⟨⟩) (.inr rfl) (by rintro _ ⟨⟩)
      · cases hstep
  | release =>
      obtain ⟨rfl, rfl⟩ := Prod.mk.inj (Option.some.inj hstep)
      refine within (.setConn rfl rfl) (by rintro ⟨⟩) (.inr rfl) ?_
      rintro s ⟨⟩
      exact (hinv.finalizing hbefore (by rintro ⟨⟩) hprepare.1).2.2.2
  | push s =>
      obtain rfl := hinv.push a r s hbefore
      obtain ⟨rfl, rfl⟩ := Prod.mk.inj (Option.some.inj hstep)
      exact hinv.pushed hframe hbefore hprepare hconn hfree (hdone rfl)

theorem SlotInv.step (hinv : SlotInv e st) (hframe : StepFrame a st st')
    (hstep : AgentStep e a st st') : SlotInv e st' := by
  cases hstep with
  | store r x todo hbefore hafter hunref hconn hfree =>
      exact hinv.store hframe hbefore hafter hunref.2 hconn hfree
  | unref r pc mid pc' hbefore hunref hprepare hconn hfree hafter hdone =>
      exact hinv.unref hframe hbefore hunref hprepare hconn hfree hafter hdone
  | other hbefore hafter hprepared hprepare hconn hfree hentry =>
      refine hinv.same hframe ⟨hconn, hfree⟩ ?_ ?_ ?_ ?_
      · rintro s (⟨r, todo, hat, -⟩ | ⟨q, u, hat, hu, -⟩)
        · rw [hprepare] at hat
          cases hat
        · exact absurd (hafter q u hat) hu
      · intro r todo hat
        rw [hprepare] at hat
        cases hat
      · intro r todo hat hmem
        rw [hprepared r todo hat] at hmem
        cases hmem
      · intro r s hat
        cases hafter r (.push s) hat

theorem handoffStep_spec {s idx : ℕ} {rest : List ℕ} {roles : List FdRole}
    (hfree : st.freeSlots = s :: rest) (hstep : st.handoffStep e h idx roles = some st') :
    st.handshake h = .idle ∧
      (∀ t, (st'.conn t).refs = (st.conn t).refs ∧ (st'.conn t).slot = (st.conn t).slot) ∧
      st'.freeSlots = rest ∧ st'.tenancy = Function.update st.tenancy s (st.tenancy s + 1) ∧
      st'.worker = st.worker ∧
      st'.handshake = Function.update st.handshake h (.prepare ⟨s, st.tenancy s + 1⟩ idx roles
        (slotAcquireStores ((st.conn s).gen + 1) ++ handoffStores e idx)) := by
  unfold EpollEngine.handoffStep at hstep
  split at hstep
  · rename_i hready
    rw [hfree] at hstep
    obtain rfl := Option.some.inj hstep
    have hsame : SameSlots st (st.setConn s { st.conn s with gen := (st.conn s).gen + 1 }) :=
      .setConn rfl rfl
    exact ⟨hready.1, hsame.1, rfl, rfl, rfl, rfl⟩
  · cases hstep

theorem SlotInv.handoff {s idx : ℕ} {rest : List ℕ} {roles : List FdRole} (hinv : SlotInv e st)
    (hfree : st.freeSlots = s :: rest) (hstep : st.handoffStep e h idx roles = some st') :
    SlotInv e st' ∧ ∀ a, st'.unrefAt a = st.unrefAt a := by
  obtain ⟨hidle, hsame, hfree', -, hworker, hhandshake⟩ := handoffStep_spec hfree hstep
  obtain ⟨hnot, hnodup⟩ := List.nodup_cons.mp (hfree ▸ hinv.nodup)
  have htop := hinv.free s (by rw [hfree]; exact List.mem_cons_self)
  have hrest : ∀ {t}, t ∈ rest → t ∈ st.freeSlots := fun ht => by
    rw [hfree]
    exact List.mem_cons_of_mem s ht
  have hunref : ∀ a, st'.unrefAt a = st.unrefAt a := by
    intro a
    cases a with
    | worker w => simp [EpollEngine.unrefAt, hworker]
    | handshake i =>
        by_cases hi : i = h
        · subst hi
          simp [EpollEngine.unrefAt, hhandshake, hidle]
        · simp [EpollEngine.unrefAt, hhandshake, hi]
  have hprepare : ∀ a, a ≠ .handshake h → st'.prepareAt a = st.prepareAt a := by
    intro a ha
    cases a with
    | worker w => rfl
    | handshake i =>
        have hi : i ≠ h := fun hi => ha (congrArg Agent.handshake hi)
        simp [EpollEngine.prepareAt, hhandshake, hi]
  have hfills : st'.prepareAt (.handshake h) = some (⟨s, st.tenancy s + 1⟩,
      slotAcquireStores ((st.conn s).gen + 1) ++ handoffStores e idx) := by
    simp [EpollEngine.prepareAt, hhandshake]
  have hempty : st.prepareAt (.handshake h) = none := by simp [EpollEngine.prepareAt, hidle]
  have hocc : ∀ {a t}, st'.Occupies a t → a = .handshake h ∧ t = s ∨ st.Occupies a t := by
    rintro a t (⟨r, todo, hat, hmem, rfl⟩ | ⟨r, pc, hat, hpc, rfl⟩)
    · by_cases ha : a = .handshake h
      · rw [ha, hfills] at hat
        cases hat
        exact .inl ⟨ha, rfl⟩
      · exact .inr (.inl ⟨r, todo, (hprepare a ha) ▸ hat, hmem, rfl⟩)
    · exact .inr (.inr ⟨r, pc, (hunref a) ▸ hat, hpc, rfl⟩)
  have hvacant : ∀ {a}, ¬st.Occupies a s := by
    intro a ha
    exact (hinv.occupied a s ha).2.1 (by rw [hfree]; exact List.mem_cons_self)
  refine ⟨⟨hfree' ▸ hnodup, fun t ht => ?_, fun t => ?_, fun a t ha => ?_, fun a b t ha hb => ?_,
    fun a r todo hat => ?_, fun t ht hfar hprep => ?_, fun a r t hat => ?_⟩, hunref⟩
  · rw [(hsame t).1]
    exact hinv.free t (hrest (hfree' ▸ ht))
  · rw [(hsame t).1]
    exact hinv.live t
  · rw [(hsame t).1, hfree']
    rcases hocc ha with ⟨-, rfl⟩ | ha
    · exact ⟨htop.1, hnot, htop.2⟩
    · obtain ⟨ht, hfar, hrefs⟩ := hinv.occupied a t ha
      exact ⟨ht, fun hmem => hfar (hrest hmem), hrefs⟩
  · rcases hocc ha with ⟨rfl, rfl⟩ | ha <;> rcases hocc hb with ⟨rfl, hts⟩ | hb
    · rfl
    · exact absurd hb hvacant
    · exact absurd (hts ▸ ha) hvacant
    · exact hinv.unique a b t ha hb
  · by_cases ha : a = .handshake h
    · rw [ha, hfills] at hat
      cases hat
      exact storesInOrder_prepare e _ idx
    · exact hinv.stores a r todo ((hprepare a ha) ▸ hat)
  · rw [(hsame t).2]
    rw [hfree'] at hfar
    by_cases hts : t = s
    · refine absurd ?_ (hprep _ _ _ hfills hts.symm)
      simp [slotAcquireStores]
    · refine hinv.number t ht (fun hmem => ?_) fun a r todo hat hr => ?_
      · rw [hfree] at hmem
        exact (List.mem_cons.mp hmem).elim hts hfar
      · have ha : a ≠ .handshake h := by
          rintro rfl
          rw [hempty] at hat
          cases hat
        exact hprep a r todo ((hprepare a ha).trans hat) hr
  · exact hinv.push a r t ((hunref a) ▸ hat)

end

end FiveGProxy
