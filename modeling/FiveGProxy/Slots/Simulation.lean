import FiveGProxy.Slots.Allocator
import FiveGProxy.Slots.Discipline
import FiveGProxy.Slots.Tenancy

/-!
# The slots of an engine

The handshake threads and the workers of `engineStep` store into their slots among much else, the
allocator of `SlotRun` does nothing but that. `Shows` says that both have the same table and the same
tenancies under way; each step of the engine is a few steps of the allocator or none
(`Shows.step`). So what the allocator guarantees holds for the table of an engine whose connections
are unreferenced once (`engine_slots`).
-/

namespace FiveGProxy

open Steps

/-- Where the thread that fills in a slot is in `slot_acquire`. -/
def fillingPc : List Store → Option TenancyPc
  | .clear :: _ => some .memset
  | .gen _ :: _ => some .storeGen
  | .slot :: _ => some .storeSlot
  | .slotState :: _ => some .storeState
  | _ => none

/-- Where the thread that unreferences a connection is in its release. -/
def UnrefPc.releasePc : UnrefPc → Option TenancyPc
  | .call | .exchange => none
  | .poison | .release => some .readSlot
  | .push s => some (.push s)

namespace EpollEngine

/-- The slot that a thread takes or gives back, and how far it is. -/
def slotPlace (st : EpollEngine) (a : Agent) : Option (ℕ × TenancyPc) :=
  match st.prepareAt a with
  | some (r, todo) => (fillingPc todo).map fun pc => (r.slot, pc)
  | none =>
      match st.unrefAt a with
      | some (r, u) => u.releasePc.map fun pc => (r.slot, pc)
      | none => none

/-- The slots look the same. -/
structure SameEntry (c : Conn) (t : SlotTable) (i : ℕ) : Prop where
  gen : t.gen i = c.gen
  slot : t.slot i = c.slot
  finalized : t.finalized i = c.finalized
  slotState : t.slotState i = c.slotState

/-- The allocator has the table and the tenancies of the engine. -/
structure Shows (e : Engine) (st : EpollEngine) (s : SlotRun) : Prop where
  free : st.freeSlots = s.table.free.reverse
  entries : ∀ i < e.slotCount, SameEntry (st.conn i) s.table i
  underway : ∀ a i pc, st.slotPlace a = some (i, pc) → ∃ (k : ℕ) (c : SlotTenancy),
    s.tenancies[k]? = some c ∧ c.slot = i ∧ c.pc = pc ∧
      ∀ r todo g, st.prepareAt a = some (r, todo) → .gen g ∈ todo → c.gen = g
  threads : ∀ (k : ℕ) (c : SlotTenancy), s.tenancies[k]? = some c → c.pc.resting = false →
    ∃ a, st.slotPlace a = some (c.slot, c.pc)
  workers : ∀ w, st.worker w ≠ .loopTest → w < e.workerCount

variable {e : Engine} {st st' : EpollEngine} {s : SlotRun} {own : ℕ → Owner} {a : Agent}

/-! ### The stores of a handshake thread -/

/-- The next store is one of the four of `slot_acquire`, or one of those that follow them. -/
theorem prepareStores_cases {done todo : List Store} {x : Store} {r : Ref} {idx : ℕ}
    (h : done ++ x :: todo = prepareStores e r idx) :
    done = [] ∧ x = .clear ∧
        todo = .gen (genOf r.tenancy) :: .slot :: .slotState :: handoffStores e idx ∨
      done = [.clear] ∧ x = .gen (genOf r.tenancy) ∧
        todo = .slot :: .slotState :: handoffStores e idx ∨
      x = .slot ∧ todo = .slotState :: handoffStores e idx ∨
      x = .slotState ∧ todo = handoffStores e idx ∨
      ∃ before more, done = .clear :: before ∧ more ++ x :: todo = handoffStores e idx := by
  rw [prepareStores_eq] at h
  rcases done with _ | ⟨y, _ | ⟨z, _ | ⟨v, _ | ⟨w, done⟩⟩⟩⟩
  · cases h
    exact .inl ⟨rfl, rfl, rfl⟩
  · cases h
    exact .inr (.inl ⟨rfl, rfl, rfl⟩)
  · cases h
    exact .inr (.inr (.inl ⟨rfl, rfl⟩))
  · cases h
    exact .inr (.inr (.inr (.inl ⟨rfl, rfl⟩)))
  · simp only [List.cons_append, List.cons.injEq] at h
    obtain ⟨rfl, -, -, -, hmore⟩ := h
    exact .inr (.inr (.inr (.inr ⟨_, done, rfl, hmore⟩)))

/-- The stores behind `slot_acquire` change nothing that the allocator knows, as `finalized` is
false already. -/
theorem handoffStores_spec {more todo : List Store} {x : Store} {idx : ℕ}
    (h : more ++ x :: todo = handoffStores e idx) :
    fillingPc (x :: todo) = none ∧ fillingPc todo = none ∧ (∀ g, .gen g ∉ todo) ∧
      ∀ (i : ℕ) (c : Conn), c.finalized = false → (x.apply e i c).entry = c.entry := by
  have hmem : ∀ y ∈ x :: todo, y ∈ handoffStores e idx := by
    intro y hy
    rw [← h]
    exact List.mem_append_right more hy
  have hcases : ∀ y ∈ handoffStores e idx, fillingPc [y] = none ∧ (∀ g, y ≠ .gen g) ∧
      ∀ (i : ℕ) (c : Conn), c.finalized = false → (y.apply e i c).entry = c.entry := by
    intro y hy
    cases e <;> simp only [handoffStores, List.mem_cons, List.not_mem_nil, or_false] at hy <;>
      rcases hy with rfl | rfl | rfl | rfl | rfl | rfl <;>
      simp_all [fillingPc, Conn.entry, Store.apply]
  have hhead : ∀ y l, fillingPc (y :: l) = fillingPc [y] := by
    intro y l
    cases y <;> rfl
  obtain ⟨hx, -, happly⟩ := hcases x (hmem x List.mem_cons_self)
  refine ⟨(hhead x todo).trans hx, ?_, fun g hg => ?_, happly⟩
  · cases todo with
    | nil => rfl
    | cons y l =>
        rw [hhead]
        exact (hcases y (hmem y (List.mem_cons_of_mem x List.mem_cons_self))).1
  · exact (hcases _ (hmem _ (List.mem_cons_of_mem x hg))).2.1 g rfl

theorem foldl_apply_finalized (i : ℕ) (stores : List Store) {c : Conn} (hc : c.finalized = false) :
    (stores.foldl (Store.apply e i) c).finalized = false := by
  induction stores generalizing c with
  | nil => exact hc
  | cons x stores ih =>
      rw [List.foldl_cons]
      exact ih (by cases x <;> simp_all [Store.apply])

/-! ### Who is at work on a slot -/

theorem prepareAt_ok (ha : AgentOk e own st a) {r : Ref} {todo : List Store}
    (hat : st.prepareAt a = some (r, todo)) :
    ∃ h idx, a = .handshake h ∧ own r.slot = .thread h ∧ Prepared e r idx todo (st.conn r.slot) := by
  cases a with
  | worker w => cases hat
  | handshake h =>
      unfold prepareAt at hat
      simp only at hat
      split at hat
      · rename_i hpc
        cases hat
        replace ha : HandshakeOk e own st h (st.handshake h) := ha
        rw [hpc] at ha
        exact ⟨h, _, rfl, ha.1, ha.2.2.2⟩
      · cases hat

theorem unrefAt_ok (ha : AgentOk e own st a) {r : Ref} {u : UnrefPc}
    (hat : st.unrefAt a = some (r, u)) (hu : u ≠ .call) : Finalizing own st a r u := by
  cases a with
  | worker w =>
      unfold unrefAt at hat
      simp only at hat
      split at hat
      · rename_i hpc
        cases hat
        exact ha.finalizing _ _ _ _ hpc hu
      · cases hat
  | handshake h =>
      unfold unrefAt at hat
      simp only at hat
      split at hat
      · rename_i hpc
        cases hat
        replace ha : HandshakeOk e own st h (st.handshake h) := ha
        rw [hpc] at ha
        cases u with
        | call => exact absurd rfl hu
        | exchange | poison | release | push i => exact ha
      · cases hat

theorem slotPlace_own (ha : AgentOk e own st a) {i : ℕ} {pc : TenancyPc}
    (hat : st.slotPlace a = some (i, pc)) :
    own i = .ending a ∨ ∃ h, a = .handshake h ∧ own i = .thread h := by
  unfold slotPlace at hat
  split at hat
  · rename_i r todo hprepare
    obtain ⟨pc', -, heq⟩ := Option.map_eq_some_iff.mp hat
    cases heq
    obtain ⟨h, idx, hagent, hown, -⟩ := prepareAt_ok ha hprepare
    exact .inr ⟨h, hagent, hown⟩
  · split at hat
    · rename_i r u hunref
      obtain ⟨pc', hpc, heq⟩ := Option.map_eq_some_iff.mp hat
      cases heq
      refine .inl (unrefAt_ok ha hunref ?_).1
      rintro rfl
      cases hpc
    · cases hat

/-- A slot that somebody owns has a tenancy that has not ended. -/
theorem Shows.tenancy (h : Shows e st s) (hb : Base e own st) (hinv : SlotRun.Inv e.slotCount s) {i : ℕ}
    (hown : own i ≠ .free) :
    ∃ (k : ℕ) (c : SlotTenancy), s.tenancies[k]? = some c ∧ c.slot = i ∧ c.pc ≠ .ended := by
  have hlt := (hb.bound i hown).1
  have hfree : i ∉ s.table.free := by
    intro hmem
    refine hown (hb.free.2 i ?_).1
    rw [h.free]
    exact List.mem_reverse.mpr hmem
  have hcount := hinv.partition i
  rw [if_pos hlt, List.count_eq_zero_of_not_mem hfree, Nat.zero_add] at hcount
  by_contra hnone
  have hzero : Tally.total (SlotTenancy.holds i) s.tenancies = 0 := by
    refine Tally.total_eq_zero fun c hc => if_neg fun hlive => ?_
    obtain ⟨k, hk⟩ := List.mem_iff_getElem?.mp hc
    exact hnone ⟨k, c, hk, hlive.2, hlive.1⟩
  omega

/-- A slot that is owned and at which no thread is at work is owned in the allocator. -/
theorem Shows.owned (h : Shows e st s) (hb : Base e own st) (hinv : SlotRun.Inv e.slotCount s) {i : ℕ}
    (hown : own i ≠ .free) (hnone : ∀ b pc, st.slotPlace b ≠ some (i, pc)) :
    ∃ (k : ℕ) (c : SlotTenancy), s.tenancies[k]? = some c ∧ c.slot = i ∧ c.pc = .owned := by
  obtain ⟨k, c, hk, rfl, hlive⟩ := h.tenancy hb hinv hown
  refine ⟨k, c, hk, rfl, ?_⟩
  by_contra hne
  have hrest : c.pc.resting = false := by
    simp [TenancyPc.resting, hne, hlive]
  obtain ⟨b, hat⟩ := h.threads k c hk hrest
  exact hnone b _ hat

/-! ### The steps of a thread -/

theorem slotPlace_frame (hframe : StepFrame a st st') {b : Agent} (hb : b ≠ a) :
    st'.slotPlace b = st.slotPlace b := by
  unfold slotPlace
  rw [hframe.prepareAt b hb, hframe.unrefAt b hb]

theorem SameEntry.congr {c c' : Conn} {t : SlotTable} {i : ℕ} (h : SameEntry c t i)
    (heq : c'.entry = c.entry) : SameEntry c' t i := by
  simp only [Conn.entry, Prod.mk.injEq] at heq
  obtain ⟨hgen, hslot, hfinalized, hstate⟩ := heq
  exact ⟨h.gen.trans hgen.symm, h.slot.trans hslot.symm, h.finalized.trans hfinalized.symm,
    h.slotState.trans hstate.symm⟩

/-- A step that the allocator does not see. -/
theorem Shows.same (h : Shows e st s) (hframe : StepFrame a st st')
    (hentry : ∀ i, (st'.conn i).entry = (st.conn i).entry) (hfree : st'.freeSlots = st.freeSlots)
    (hplace : st'.slotPlace a = st.slotPlace a)
    (hgens : ∀ r todo g, st'.prepareAt a = some (r, todo) → .gen g ∉ todo)
    (hworkers : ∀ w, st'.worker w ≠ .loopTest → w < e.workerCount) : Shows e st' s := by
  have hall : ∀ b, st'.slotPlace b = st.slotPlace b := by
    intro b
    by_cases hb : b = a
    · rw [hb, hplace]
    · exact slotPlace_frame hframe hb
  refine ⟨hfree.trans h.free, fun i hi => (h.entries i hi).congr (hentry i), fun b i pc hat => ?_,
    fun k c hk hpc => ?_, hworkers⟩
  · obtain ⟨k, c, hk, hslot, hpc, hgen⟩ := h.underway b i pc ((hall b).symm.trans hat)
    refine ⟨k, c, hk, hslot, hpc, fun r todo g hprepare hmem => ?_⟩
    by_cases hb : b = a
    · exact absurd hmem (hgens r todo g (hb ▸ hprepare))
    · exact hgen r todo g ((hframe.prepareAt b hb).symm.trans hprepare) hmem
  · obtain ⟨b, hat⟩ := h.threads k c hk hpc
    exact ⟨b, (hall b).trans hat⟩

/-- Thread `a` makes a step on the slot of tenancy `k`, where no other thread is at work. -/
theorem Shows.move (h : Shows e st s) (hinv : SlotRun.Inv e.slotCount s) (hframe : StepFrame a st st')
    {k : ℕ} {c : SlotTenancy} (hk : s.tenancies[k]? = some c) (hlive : c.pc ≠ .ended) {t : SlotTable}
    {pc : TenancyPc} (hentry : ∀ i < e.slotCount, SameEntry (st'.conn i) t i)
    (hfree : st'.freeSlots = t.free.reverse)
    (halone : ∀ b i p, st.slotPlace b = some (i, p) → (b = a ↔ i = c.slot))
    (hplace : st'.slotPlace a = if pc.resting then none else some (c.slot, pc))
    (hgens : ∀ r todo g, st'.prepareAt a = some (r, todo) → .gen g ∈ todo → c.gen = g)
    (hworkers : ∀ w, st'.worker w ≠ .loopTest → w < e.workerCount) :
    Shows e st' ⟨t, s.tenancies.set k { c with pc := pc }⟩ := by
  have hset : (s.tenancies.set k { c with pc := pc })[k]? = some { c with pc := pc } :=
    List.getElem?_set_self (List.getElem?_eq_some_iff.mp hk).1
  refine ⟨hfree, hentry, fun b i p hat => ?_, fun k' c' hk' hpc => ?_, hworkers⟩
  · by_cases hb : b = a
    · rw [hb, hplace] at hat
      split at hat
      · cases hat
      · cases hat
        exact ⟨k, _, hset, rfl, rfl, fun r todo g hprepare => hgens r todo g (hb ▸ hprepare)⟩
    · rw [slotPlace_frame hframe hb] at hat
      obtain ⟨k', c', hk', hslot, hpc, hgen⟩ := h.underway b i p hat
      have hne : k ≠ k' := by
        rintro rfl
        obtain rfl := Option.some.inj (hk.symm.trans hk')
        exact hb ((halone b i p hat).mpr hslot.symm)
      refine ⟨k', c', (List.getElem?_set_ne hne).trans hk', hslot, hpc, fun r todo g hprepare => ?_⟩
      exact hgen r todo g ((hframe.prepareAt b hb).symm.trans hprepare)
  · by_cases hkk : k = k'
    · subst hkk
      obtain rfl := Option.some.inj (hset.symm.trans hk')
      refine ⟨a, ?_⟩
      rw [hplace, hpc]
      rfl
    · rw [List.getElem?_set_ne hkk] at hk'
      obtain ⟨b, hat⟩ := h.threads k' c' hk' hpc
      have hb : b ≠ a := by
        intro hb
        have hslot := (halone b _ _ hat).mp hb
        have hlive' : c'.pc ≠ .ended := by
          intro hended
          rw [hended] at hpc
          cases hpc
        exact hkk (hinv.unique hk hk' hlive hlive' hslot.symm)
      exact ⟨b, (slotPlace_frame hframe hb).trans hat⟩

theorem entries_update (h : Shows e st s) {j : ℕ} {c : Conn}
    (hconn : st'.conn = Function.update st.conn j c) {t : SlotTable} (hself : SameEntry c t j)
    (hother : ∀ i, i ≠ j → t.gen i = s.table.gen i ∧ t.slot i = s.table.slot i ∧
      t.finalized i = s.table.finalized i ∧ t.slotState i = s.table.slotState i) :
    ∀ i < e.slotCount, SameEntry (st'.conn i) t i := by
  intro i hi
  rw [hconn]
  by_cases hij : i = j
  · subst hij
    rwa [Function.update_self]
  · rw [Function.update_of_ne hij]
    obtain ⟨hgen, hslot, hfinalized, hstate⟩ := hother i hij
    have hold := h.entries i hi
    exact ⟨hgen.trans hold.gen, hslot.trans hold.slot, hfinalized.trans hold.finalized,
      hstate.trans hold.slotState⟩

theorem step_next {k : ℕ} {c : SlotTenancy} (hk : s.tenancies[k]? = some c) {t : SlotTable}
    {p : TenancyPc} (hnext : c.next s.table = some (t, p)) (n : ℕ) :
    SlotRun.step n s (.next k) = some ⟨t, s.tenancies.set k { c with pc := p }⟩ := by
  simp only [SlotRun.step, hk, hnext, Option.map_some]

theorem step_finalize {k : ℕ} {c : SlotTenancy} (hk : s.tenancies[k]? = some c) (hpc : c.pc = .owned)
    (hfinalized : s.table.finalized c.slot = false) (n : ℕ) :
    SlotRun.step n s (.finalize k) = some
      { table := { s.table with finalized := Function.update s.table.finalized c.slot true }
        tenancies := s.tenancies.set k { c with pc := .readSlot } } := by
  simp only [SlotRun.step, hk, hpc, true_or, if_true, hfinalized, Bool.false_eq_true, if_false]

theorem slotPlace_of_prepare {r : Ref} {todo : List Store} (h : st.prepareAt a = some (r, todo)) :
    st.slotPlace a = (fillingPc todo).map fun pc => (r.slot, pc) := by
  unfold slotPlace
  rw [h]

theorem slotPlace_of_unref {r : Ref} {u : UnrefPc} (h : st.prepareAt a = none)
    (hat : st.unrefAt a = some (r, u)) :
    st.slotPlace a = u.releasePc.map fun pc => (r.slot, pc) := by
  unfold slotPlace
  rw [h, hat]

/-- Only `a` is at work on its slot. -/
theorem alone_of_own (ha : ∀ a, AgentOk e own st a) {j : ℕ}
    (hown : own j = .ending a ∨ ∃ h, a = .handshake h ∧ own j = .thread h)
    (hplace : ∀ i p, st.slotPlace a = some (i, p) → i = j) {b : Agent} {i : ℕ} {p : TenancyPc}
    (hat : st.slotPlace b = some (i, p)) : b = a ↔ i = j := by
  refine ⟨fun hb => hplace i p (hb ▸ hat), ?_⟩
  rintro rfl
  rcases slotPlace_own (ha b) hat with hb | ⟨h', rfl, hb⟩
  · rcases hown with hown | ⟨h, rfl, hown⟩ <;> rw [hown] at hb
    · exact (Owner.ending.inj hb).symm
    · cases hb
  · rcases hown with hown | ⟨h, rfl, hown⟩ <;> rw [hown] at hb
    · cases hb
    · exact congrArg Agent.handshake (Owner.thread.inj hb).symm

theorem Shows.store (h : Shows e st s) (hinv : SlotRun.Inv e.slotCount s) (hb : Base e own st)
    (ha : ∀ a, AgentOk e own st a) (hframe : StepFrame a st st') {r : Ref} {x : Store}
    {todo : List Store} (hbefore : st.prepareAt a = some (r, x :: todo))
    (hafter : st'.prepareAt a = some (r, todo))
    (hconn : st'.conn = Function.update st.conn r.slot (x.apply e r.slot (st.conn r.slot)))
    (hfree : st'.freeSlots = st.freeSlots)
    (hworkers : ∀ w, st'.worker w ≠ .loopTest → w < e.workerCount) :
    ∃ s', Reaches (SlotRun.step e.slotCount) s s' ∧ Shows e st' s' := by
  obtain ⟨i, idx, rfl, hown, done, c₀, hdone, -, -, hc⟩ := prepareAt_ok (ha a) hbefore
  have hplace := slotPlace_of_prepare hbefore
  have hplace' := slotPlace_of_prepare hafter
  have halone : ∀ b j p, st.slotPlace b = some (j, p) → (b = .handshake i ↔ j = r.slot) := by
    refine fun b j p hat => alone_of_own ha (.inr ⟨i, rfl, hown⟩) (fun j p hat => ?_) hat
    rw [hplace] at hat
    obtain ⟨pc, -, heq⟩ := Option.map_eq_some_iff.mp hat
    exact (Prod.mk.inj heq).1.symm
  have hlt : r.slot < e.slotCount := by
    refine (hb.bound r.slot ?_).1
    rw [hown]
    rintro ⟨⟩
  have hself := h.entries r.slot hlt
  -- one of the four stores of `slot_acquire`
  have hgo : ∀ (pc pc' : TenancyPc) (t : SlotTable), fillingPc (x :: todo) = some pc →
      pc ≠ .ended → (∀ c : SlotTenancy, c.slot = r.slot → c.pc = pc →
        (∀ g, .gen g ∈ x :: todo → c.gen = g) → c.next s.table = some (t, pc')) →
      SameEntry (x.apply e r.slot (st.conn r.slot)) t r.slot →
      (∀ j, j ≠ r.slot → t.gen j = s.table.gen j ∧ t.slot j = s.table.slot j ∧
        t.finalized j = s.table.finalized j ∧ t.slotState j = s.table.slotState j) →
      t.free = s.table.free → (∀ g, .gen g ∈ todo → .gen g ∈ x :: todo) →
      fillingPc todo = (if pc'.resting then none else some pc') →
      ∃ s', Reaches (SlotRun.step e.slotCount) s s' ∧ Shows e st' s' := by
    intro pc pc' t hpc hlive hnext hentry hother htop hgens hpc'
    rw [hpc] at hplace
    obtain ⟨k, c, hk, hslot, rfl, hgen⟩ := h.underway _ _ _ hplace
    have hgen' : ∀ g, .gen g ∈ x :: todo → c.gen = g := fun g => hgen r _ g hbefore
    refine ⟨_, Reaches.single (step_next hk (hnext c hslot rfl hgen') _),
      h.move hinv hframe hk hlive (entries_update h hconn hentry hother) ?_ ?_ ?_ ?_ hworkers⟩
    · rw [hfree, h.free, htop]
    · rwa [hslot]
    · rw [hplace', hpc', hslot]
      split <;> rfl
    · intro r' todo' g hprepare hmem
      rw [hafter] at hprepare
      cases hprepare
      exact hgen' g (hgens g hmem)
  have hplain : fillingPc (handoffStores e idx) = none := by
    cases e <;> rfl
  rcases prepareStores_cases hdone with ⟨-, rfl, rfl⟩ | ⟨-, rfl, rfl⟩ | ⟨rfl, rfl⟩ | ⟨rfl, rfl⟩ |
      ⟨before, more, rfl, hmore⟩
  · refine hgo .memset .storeGen { s.table with
        gen := Function.update s.table.gen r.slot 0
        slot := Function.update s.table.slot r.slot 0
        finalized := Function.update s.table.finalized r.slot false } rfl (by rintro ⟨⟩)
      (by rintro ⟨_, _, _⟩ rfl rfl _; rfl) ?_ ?_ rfl (fun g hmem => List.mem_cons_of_mem _ hmem) rfl
    · exact ⟨Function.update_self .., Function.update_self .., Function.update_self ..,
        hself.slotState⟩
    · exact fun j hj => ⟨Function.update_of_ne hj .., Function.update_of_ne hj ..,
        Function.update_of_ne hj .., rfl⟩
  · refine hgo .storeGen .storeSlot
      { s.table with gen := Function.update s.table.gen r.slot (genOf r.tenancy) } rfl
      (by rintro ⟨⟩) ?_ ?_ ?_ rfl (fun g hmem => List.mem_cons_of_mem _ hmem) rfl
    · rintro ⟨_, _, _⟩ rfl rfl hgen
      rw [SlotTenancy.next, hgen _ List.mem_cons_self]
    · exact ⟨Function.update_self .., hself.slot, hself.finalized, hself.slotState⟩
    · exact fun j hj => ⟨Function.update_of_ne hj .., rfl, rfl, rfl⟩
  · refine hgo .storeSlot .storeState
      { s.table with slot := Function.update s.table.slot r.slot r.slot } rfl (by rintro ⟨⟩)
      (by rintro ⟨_, _, _⟩ rfl rfl _; rfl) ?_ ?_ rfl (fun g hmem => List.mem_cons_of_mem _ hmem) rfl
    · exact ⟨hself.gen, Function.update_self .., hself.finalized, hself.slotState⟩
    · exact fun j hj => ⟨rfl, Function.update_of_ne hj .., rfl, rfl⟩
  · refine hgo .storeState .owned
      { s.table with slotState := Function.update s.table.slotState r.slot true } rfl
      (by rintro ⟨⟩) (by rintro ⟨_, _, _⟩ rfl rfl _; rfl) ?_ ?_ rfl
      (fun g hmem => List.mem_cons_of_mem _ hmem) hplain
    · exact ⟨hself.gen, hself.slot, hself.finalized, Function.update_self ..⟩
    · exact fun j hj => ⟨rfl, rfl, rfl, Function.update_of_ne hj ..⟩
  · obtain ⟨hfirst, hrest, hnone, hentry⟩ := handoffStores_spec hmore
    have hfinalized : (st.conn r.slot).finalized = false := by
      rw [hc, List.foldl_cons]
      exact foldl_apply_finalized _ before rfl
    refine ⟨s, .refl s, h.same hframe (fun j => ?_) hfree ?_ (fun r' todo' g hprepare => ?_) hworkers⟩
    · rw [hconn]
      by_cases hj : j = r.slot
      · subst hj
        rw [Function.update_self]
        exact hentry _ _ hfinalized
      · rw [Function.update_of_ne hj]
    · rw [hplace, hplace', hfirst, hrest]
    · rw [hafter] at hprepare
      cases hprepare
      exact hnone g

theorem slotPlace_of_done (hprepare : st.prepareAt a = none)
    (hdone : ∀ q u, st.unrefAt a = some (q, u) → u = .call) : st.slotPlace a = none := by
  unfold slotPlace
  rw [hprepare]
  cases hat : st.unrefAt a with
  | none => rfl
  | some p =>
      obtain ⟨q, u⟩ := p
      obtain rfl := hdone q u hat
      rfl

theorem Shows.unref (h : Shows e st s) (hinv : SlotRun.Inv e.slotCount s) (hb : Base e own st)
    (ha : ∀ a, AgentOk e own st a) (hframe : StepFrame a st st') {r : Ref} {u : UnrefPc}
    {mid : EpollEngine} {u' : Option UnrefPc} (hbefore : st.unrefAt a = some (r, u))
    (hstep : st.unrefStep r u = some (mid, u'))
    (hprepare : st.prepareAt a = none ∧ st'.prepareAt a = none) (hconn : st'.conn = mid.conn)
    (hfree : st'.freeSlots = mid.freeSlots)
    (hafter : ∀ v, u' = some v → st'.unrefAt a = some (r, v))
    (hdone : u' = none → ∀ q v, st'.unrefAt a = some (q, v) → v = .call)
    (hworkers : ∀ w, st'.worker w ≠ .loopTest → w < e.workerCount) :
    ∃ s', Reaches (SlotRun.step e.slotCount) s s' ∧ Shows e st' s' := by
  have hplace := slotPlace_of_unref hprepare.1 hbefore
  have hplace' : st'.slotPlace a = (u'.bind UnrefPc.releasePc).map fun pc => (r.slot, pc) := by
    cases u' with
    | none => exact slotPlace_of_done hprepare.2 (hdone rfl)
    | some v => exact slotPlace_of_unref hprepare.2 (hafter v rfl)
  have hnogen : ∀ r todo g, st'.prepareAt a = some (r, todo) → .gen g ∉ todo := by
    intro r todo g hat
    rw [hprepare.2] at hat
    cases hat
  have hkeep : ∀ c : Conn, c.entry = (st.conn r.slot).entry →
      st'.conn = Function.update st.conn r.slot c → st'.freeSlots = st.freeSlots →
      st'.slotPlace a = st.slotPlace a →
      ∃ s', Reaches (SlotRun.step e.slotCount) s s' ∧ Shows e st' s' := by
    intro c hentry hupdate hsame hat
    refine ⟨s, .refl s, h.same hframe (fun i => ?_) hsame hat hnogen hworkers⟩
    rw [hupdate]
    by_cases hi : i = r.slot
    · subst hi
      rw [Function.update_self, hentry]
    · rw [Function.update_of_ne hi]
  have hfinalizing : own r.slot = .ending a → r.slot < e.slotCount ∧
      ∀ b i p, st.slotPlace b = some (i, p) → (b = a ↔ i = r.slot) := by
    intro hown
    refine ⟨(hb.bound r.slot (by rw [hown]; rintro ⟨⟩)).1, fun b i p hat => ?_⟩
    refine alone_of_own ha (.inl hown) (fun i p hat => ?_) hat
    rw [hplace] at hat
    obtain ⟨pc, -, heq⟩ := Option.map_eq_some_iff.mp hat
    exact (Prod.mk.inj heq).1.symm
  have hnogens : ∀ {g' : BitVec 32} r todo g, st'.prepareAt a = some (r, todo) →
      .gen g ∈ todo → g' = g := fun r todo g hat hmem => absurd hmem (hnogen r todo g hat)
  cases u with
  | call =>
      obtain ⟨rfl, rfl⟩ := Prod.mk.inj (Option.some.inj hstep)
      refine hkeep { st.conn r.slot with refs := (st.conn r.slot).refs - 1 } rfl hconn hfree ?_
      rw [hplace, hplace']
      split <;> rfl
  | exchange =>
      obtain ⟨hown, hfinalized, -, -⟩ := unrefAt_ok (ha a) hbefore (by rintro ⟨⟩)
      have hfin := hfinalized rfl
      obtain ⟨rfl, rfl⟩ := Prod.mk.inj (Option.some.inj hstep)
      rw [hfin] at hplace'
      obtain ⟨hlt, halone⟩ := hfinalizing hown
      obtain ⟨k, c, hk, hslot, hpc⟩ := h.owned hb hinv (by rw [hown]; rintro ⟨⟩) fun b pc hat => by
        rw [(halone b _ pc hat).mpr rfl, hplace] at hat
        cases hat
      have hself := h.entries r.slot hlt
      refine ⟨_, Reaches.single (a := .finalize k) (step_finalize hk hpc ?_ _),
        h.move hinv hframe hk (by rw [hpc]; rintro ⟨⟩) (entries_update h hconn ?_ ?_) ?_ ?_ ?_ hnogens
          hworkers⟩
      · rw [hslot]
        exact hself.finalized.trans hfin
      · rw [hslot]
        exact ⟨hself.gen, hself.slot, Function.update_self .., hself.slotState⟩
      · rw [hslot]
        exact fun j hj => ⟨rfl, rfl, Function.update_of_ne hj .., rfl⟩
      · exact hfree.trans h.free
      · rwa [hslot]
      · rw [hplace', hslot]
        rfl
  | poison =>
      simp only [unrefStep] at hstep
      split at hstep
      · obtain ⟨rfl, rfl⟩ := Prod.mk.inj (Option.some.inj hstep)
        refine hkeep { st.conn r.slot with magic := 0 } rfl hconn hfree ?_
        rw [hplace, hplace']
        rfl
      · cases hstep
  | release =>
      obtain ⟨hown, -, -, -⟩ := unrefAt_ok (ha a) hbefore (by rintro ⟨⟩)
      obtain ⟨hlt, halone⟩ := hfinalizing hown
      have hnumber : (st.conn r.slot).slot = r.slot := by
        have hslot := hb.slots r.slot
        rw [hown] at hslot
        exact hslot.2.1
      obtain ⟨rfl, rfl⟩ := Prod.mk.inj (Option.some.inj hstep)
      rw [hnumber] at hconn hplace'
      obtain ⟨k, c, hk, hslot, hpc, -⟩ := h.underway a r.slot .readSlot hplace
      have hself := h.entries r.slot hlt
      have hread : c.next s.table = some (s.table, .clearState r.slot) := by
        rw [SlotTenancy.next, hpc, hslot, hself.slot, hnumber]
      have hmid : (s.tenancies.set k { c with pc := .clearState r.slot })[k]? =
          some { c with pc := .clearState r.slot } :=
        List.getElem?_set_self (List.getElem?_eq_some_iff.mp hk).1
      have hclear := step_next (s := ⟨s.table, s.tenancies.set k { c with pc := .clearState r.slot }⟩)
        hmid (t := { s.table with slotState := Function.update s.table.slotState r.slot false })
        (p := .push r.slot) rfl e.slotCount
      rw [List.set_set] at hclear
      refine ⟨_, (Reaches.single (step_next hk hread e.slotCount)).trans (Reaches.single hclear),
        h.move hinv hframe hk (by rw [hpc]; rintro ⟨⟩) (entries_update h hconn ?_ ?_) ?_ ?_ ?_ hnogens
          hworkers⟩
      · exact ⟨hself.gen, hself.slot, hself.finalized, Function.update_self ..⟩
      · exact fun j hj => ⟨rfl, rfl, rfl, Function.update_of_ne hj ..⟩
      · exact hfree.trans h.free
      · rwa [hslot]
      · rw [hplace', hslot]
        rfl
  | push i =>
      obtain ⟨hown, -, -, hpush⟩ := unrefAt_ok (ha a) hbefore (by rintro ⟨⟩)
      obtain ⟨rfl, -⟩ := hpush i rfl
      obtain ⟨hlt, halone⟩ := hfinalizing hown
      obtain ⟨rfl, rfl⟩ := Prod.mk.inj (Option.some.inj hstep)
      obtain ⟨k, c, hk, hslot, hpc, -⟩ := h.underway a r.slot (.push r.slot) hplace
      have hnext : c.next s.table = some ({ s.table with
          freeSlots := Function.update s.table.freeSlots s.table.freeSlotTop r.slot
          freeSlotTop := s.table.freeSlotTop + 1 }, .ended) := by
        rw [SlotTenancy.next, hpc]
      refine ⟨_, Reaches.single (step_next hk hnext e.slotCount),
        h.move hinv hframe hk (by rw [hpc]; rintro ⟨⟩) (fun j hj => ?_) ?_ ?_ ?_ hnogens hworkers⟩
      · rw [hconn]
        have hself := h.entries j hj
        exact ⟨hself.gen, hself.slot, hself.finalized, hself.slotState⟩
      · rw [hfree, SlotRun.free_push, List.reverse_append, ← h.free]
        rfl
      · rwa [hslot]
      · rw [hplace']
        rfl

/-! ### The steps of an engine -/

theorem Shows.agent (h : Shows e st s) (hinv : SlotRun.Inv e.slotCount s) (hb : Base e own st)
    (ha : ∀ a, AgentOk e own st a) (hframe : StepFrame a st st') (hstep : AgentStep e a st st')
    (hworkers : ∀ w, st'.worker w ≠ .loopTest → w < e.workerCount) :
    ∃ s', Reaches (SlotRun.step e.slotCount) s s' ∧ Shows e st' s' := by
  cases hstep with
  | store r x todo hbefore hafter hunref hconn hfree =>
      exact h.store hinv hb ha hframe hbefore hafter hconn hfree hworkers
  | unref r u mid u' hbefore hunref hprepare hconn hfree hafter hdone =>
      exact h.unref hinv hb ha hframe hbefore hunref hprepare hconn hfree hafter hdone hworkers
  | other hbefore hafter hprepared hprepare hconn hfree hentry =>
      refine ⟨s, .refl s, h.same hframe hentry hfree ?_ (fun r todo g hat => ?_) hworkers⟩
      · rw [slotPlace_of_done hprepare hafter]
        cases hat : st.prepareAt a with
        | none =>
            refine (slotPlace_of_done hat fun q u hunref => ?_).symm
            rw [hbefore] at hunref
            cases hunref
        | some p =>
            obtain ⟨r, todo⟩ := p
            obtain rfl := hprepared r todo hat
            rw [slotPlace_of_prepare hat]
            rfl
      · rw [hprepare] at hat
        cases hat

theorem slotPlace_of_idle {i : ℕ} (hpc : st.handshake i = .idle) :
    st.slotPlace (.handshake i) = none := by
  simp [slotPlace, prepareAt, unrefAt, hpc]

theorem slotPlace_of_loopTest {w : ℕ} (hpc : st.worker w = .loopTest ∨ st.worker w = .exited) :
    st.slotPlace (.worker w) = none := by
  rcases hpc with hpc | hpc <;> simp [slotPlace, prepareAt, unrefAt, hpc]

theorem Shows.handoff (h : Shows e st s) (hb : Base e own st) {i idx : ℕ} {roles : List FdRole}
    (hstep : st.handoffStep e i idx roles = some st') :
    ∃ s', Reaches (SlotRun.step e.slotCount) s s' ∧ Shows e st' s' := by
  unfold handoffStep at hstep
  split at hstep
  case isFalse => cases hstep
  case isTrue hready =>
    have hidle := slotPlace_of_idle hready.1
    split at hstep
    case h_1 =>
      cases hstep
      exact ⟨s, .refl s, h⟩
    case h_2 j rest hfree =>
      cases hstep
      have htop : s.table.freeSlotTop ≠ 0 := by
        intro hzero
        have hlen := congrArg List.length (h.free.symm.trans hfree)
        simp [SlotTable.free, hzero] at hlen
      have hpop := h.free
      rw [hfree, SlotRun.free_pop htop, List.reverse_append, List.reverse_singleton,
        List.singleton_append, List.cons.injEq] at hpop
      obtain ⟨rfl, hrest⟩ := hpop
      have hlt := (hb.free.2 _ (by rw [hfree]; exact List.mem_cons_self)).2
      have hself := h.entries _ hlt
      have hacquire : SlotRun.step e.slotCount s .acquire = some
          { table := { s.table with
              freeSlotTop := s.table.freeSlotTop - 1
              gen := Function.update s.table.gen (s.table.freeSlots (s.table.freeSlotTop - 1))
                (s.table.gen (s.table.freeSlots (s.table.freeSlotTop - 1)) + 1) }
            tenancies := s.tenancies ++ [⟨s.table.freeSlots (s.table.freeSlotTop - 1),
              s.table.gen (s.table.freeSlots (s.table.freeSlotTop - 1)) + 1, .memset⟩] } :=
        if_neg htop
      generalize s.table.freeSlots (s.table.freeSlotTop - 1) = j at *
      have hgen : s.table.gen j = (st.conn j).gen := hself.gen
      generalize hnew : { (st.setConn j { st.conn j with gen := (st.conn j).gen + 1 }).setHandshake i
          (.prepare ⟨j, st.tenancy j + 1⟩ idx roles
            (slotAcquireStores ((st.conn j).gen + 1) ++ handoffStores e idx)) with
          freeSlots := rest
          tenancy := Function.update st.tenancy j (st.tenancy j + 1) } = new
      have hothers : ∀ b, b ≠ .handshake i →
          new.slotPlace b = st.slotPlace b ∧ new.prepareAt b = st.prepareAt b := by
        subst hnew
        intro b hb
        cases b with
        | worker w => exact ⟨rfl, rfl⟩
        | handshake l =>
            have hl : l ≠ i := fun hl => hb (congrArg Agent.handshake hl)
            simp [slotPlace, prepareAt, unrefAt, setHandshake, setConn, hl]
      have hprepare : new.prepareAt (.handshake i) = some (⟨j, st.tenancy j + 1⟩,
          slotAcquireStores ((st.conn j).gen + 1) ++ handoffStores e idx) := by
        subst hnew
        simp [prepareAt, setHandshake]
      have hplace : new.slotPlace (.handshake i) = some (j, .memset) := slotPlace_of_prepare hprepare
      refine ⟨_, Reaches.single hacquire, ?_, ?_, ?_, ?_, ?_⟩
      · subst hnew
        exact hrest
      · subst hnew
        refine entries_update h rfl ?_ ?_
        · exact ⟨(Function.update_self ..).trans (congrArg (· + 1) hgen), hself.slot,
            hself.finalized, hself.slotState⟩
        · exact fun l hl => ⟨Function.update_of_ne hl .., rfl, rfl, rfl⟩
      · intro b l pc hat
        by_cases hb : b = .handshake i
        · rw [hb, hplace] at hat
          cases hat
          refine ⟨s.tenancies.length, _, List.getElem?_concat_length, rfl, rfl, ?_⟩
          intro r todo g hat hmem
          rw [hb, hprepare] at hat
          cases hat
          have heq : g = (st.conn j).gen + 1 := by
            cases e <;> simpa [slotAcquireStores, handoffStores] using hmem
          rw [heq, hgen]
        · obtain ⟨k, c, hk, hslot, hpc, hgens⟩ := h.underway b l pc ((hothers b hb).1.symm.trans hat)
          refine ⟨k, c, ?_, hslot, hpc, fun r todo g hat => ?_⟩
          · exact (List.getElem?_append_left (List.getElem?_eq_some_iff.mp hk).1).trans hk
          · exact hgens r todo g ((hothers b hb).2.symm.trans hat)
      · intro k c hk hpc
        rw [List.getElem?_append] at hk
        split at hk
        case isTrue =>
          obtain ⟨b, hat⟩ := h.threads k c hk hpc
          have hb : b ≠ .handshake i := by
            rintro rfl
            rw [hidle] at hat
            cases hat
          exact ⟨b, (hothers b hb).1.trans hat⟩
        case isFalse =>
          rw [List.getElem?_singleton] at hk
          split at hk
          case isTrue =>
            cases hk
            exact ⟨.handshake i, hplace⟩
          case isFalse => cases hk
      · subst hnew
        exact h.workers

theorem free_init (n : ℕ) (t : SlotTable) : (t.init n).free = List.range n := by
  refine (List.map_congr_left fun i hi => ?_).trans (List.map_id _)
  exact if_pos (List.mem_range.mp hi)

/-- A restart ends the tenancies that nobody has released. -/
theorem Shows.restart (h : Shows e st s) (hrun : RunInv e st) (hended : st.AllEnded e) :
    ∃ s', Reaches (SlotRun.step e.slotCount) s s' ∧ Shows e (st.slotsInit e) s' := by
  have hnone : ∀ a, st.slotPlace a = none := by
    intro a
    cases a with
    | worker w =>
        by_cases hw : st.worker w = .loopTest
        · exact slotPlace_of_loopTest (.inl hw)
        · exact slotPlace_of_loopTest (.inr (hended.1 w (h.workers w hw)))
    | handshake i =>
        refine slotPlace_of_idle ?_
        by_contra hi
        exact hi (hended.2 i (hrun.threads i hi))
  have hresting : s.tenancies.all (·.pc.resting) = true := by
    refine List.all_eq_true.mpr fun c hc => ?_
    by_contra hpc
    obtain ⟨k, hk⟩ := List.mem_iff_getElem?.mp hc
    obtain ⟨a, hat⟩ := h.threads k c hk (eq_false_of_ne_true hpc)
    rw [hnone a] at hat
    cases hat
  have hstep : SlotRun.step e.slotCount s .restart =
      some ⟨s.table.init e.slotCount, s.tenancies.map fun c => { c with pc := .ended }⟩ :=
    if_pos hresting
  refine ⟨_, Reaches.single hstep, ?_, fun i hi => ?_, fun a i pc hat => ?_, fun k c hk hpc => ?_,
    fun w hw => absurd rfl hw⟩
  · rw [free_init]
    rfl
  · have hself := h.entries i hi
    refine ⟨?_, hself.slot, hself.finalized, if_pos hi⟩
    show (if i < e.slotCount ∧ s.table.gen i = 0 then 1 else s.table.gen i) =
      if (st.conn i).gen = 0 then 1 else (st.conn i).gen
    rw [hself.gen]
    simp only [hi, true_and]
  · cases a with
    | worker w =>
        rw [slotPlace_of_loopTest (.inl rfl)] at hat
        cases hat
    | handshake i =>
        rw [slotPlace_of_idle rfl] at hat
        cases hat
  · rw [List.getElem?_map, Option.map_eq_some_iff] at hk
    obtain ⟨d, -, rfl⟩ := hk
    cases hpc

theorem Shows.init (e : Engine) : Shows e (init e) (SlotRun.init e.slotCount) where
  free := by
    rw [SlotRun.init, free_init]
    rfl
  entries i hi := ⟨if_pos ⟨hi, rfl⟩, rfl, rfl, if_pos hi⟩
  underway a i pc hat := by
    cases a with
    | worker w =>
        rw [slotPlace_of_loopTest (.inl rfl)] at hat
        cases hat
    | handshake i =>
        rw [slotPlace_of_idle rfl] at hat
        cases hat
  threads k c hk := by cases hk
  workers w hw := absurd rfl hw

/-- A step of the engine is some steps of the allocator, or none. -/
theorem Shows.step {ev : EngineEvent} (h : Shows e st s) (hrun : RunInv e st)
    (hinv : SlotRun.Inv e.slotCount s) (hstep : engineStep e st ev = some st') :
    ∃ s', Reaches (SlotRun.step e.slotCount) s s' ∧ Shows e st' s' := by
  obtain ⟨own, hb, -, ha⟩ := hrun.engine
  cases ev with
  | quit =>
      cases hstep
      exact ⟨s, .refl s, h.free, h.entries, h.underway, h.threads, h.workers⟩
  | restart =>
      simp only [engineStep] at hstep
      split at hstep
      case isTrue hended =>
        cases hstep
        exact h.restart hrun hended
      case isFalse => cases hstep
  | handoff i idx roles => exact h.handoff hb hstep
  | handshake i ok =>
      obtain ⟨hframe, hkind⟩ := handshakeStep_kind hstep
      obtain ⟨-, hworker, -⟩ := handshakeStep_same hstep
      exact h.agent hinv hb ha hframe hkind fun w hw => h.workers w (hworker ▸ hw)
  | worker w choice batch =>
      simp only [engineStep] at hstep
      split at hstep
      case isFalse => cases hstep
      case isTrue hw =>
        obtain ⟨hframe, hkind⟩ := workerStep_kind hstep
        obtain ⟨-, -, -, pc, hworker, -⟩ := workerStep_same (hrun.delivered w) hstep
        refine h.agent hinv hb ha hframe hkind fun v hv => ?_
        by_cases hvw : v = w
        · exact hvw ▸ hw
        · rw [hworker, Function.update_of_ne hvw] at hv
          exact h.workers v hv

end EpollEngine

end FiveGProxy
