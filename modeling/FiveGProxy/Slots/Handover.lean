import FiveGProxy.Slots.Unref

/-!
# Handing a connection over

The steps of a handshake thread: it acquires a slot, fills it in, puts it on the list of a worker
and registers its descriptors under the lock of the list, and sets `registered` after the lock is
gone. The last store is the one that can come too late.
-/

namespace FiveGProxy

open Steps

variable {e : Engine} {own : ℕ → Owner} {st st' : EpollEngine}

/-! ### Filling in a slot -/

theorem Store.apply_refs (s : ℕ) {c : Conn} (hc : 0 ≤ c.refs) (x : Store) :
    0 ≤ (x.apply e s c).refs := by
  cases x <;> simp_all [Store.apply]

theorem Prepared.next {r : Ref} {idx : ℕ} {x : Store} {todo : List Store} {c : Conn}
    (h : Prepared e r idx (x :: todo) c) : Prepared e r idx todo (x.apply e r.slot c) := by
  obtain ⟨done, c₀, hlist, hstate, hrefs, rfl⟩ := h
  exact ⟨done ++ [x], c₀, by simpa using hlist, hstate, hrefs, by simp⟩

theorem foldl_apply_gen (s : ℕ) {stores : List Store} (c : Conn)
    (h : ∀ x ∈ stores, x ≠ .clear ∧ ∀ g, x ≠ .gen g) :
    (stores.foldl (Store.apply e s) c).gen = c.gen := by
  induction stores generalizing c with
  | nil => rfl
  | cons x stores ih =>
      rw [List.foldl_cons, ih _ fun y hy => h y (List.mem_cons_of_mem x hy)]
      obtain ⟨hclear, hgen⟩ := h x List.mem_cons_self
      cases x <;> simp_all [Store.apply]

theorem foldl_apply_registered (s : ℕ) (stores : List Store) {c : Conn}
    (hc : c.registered = false) : (stores.foldl (Store.apply e s) c).registered = false := by
  induction stores generalizing c with
  | nil => exact hc
  | cons x stores ih =>
      rw [List.foldl_cons]
      exact ih (by cases x <;> simp_all [Store.apply])

theorem prepareStores_eq (r : Ref) (idx : ℕ) : prepareStores e r idx =
    .clear :: .gen (genOf r.tenancy) :: .slot :: .slotState :: handoffStores e idx := rfl

theorem Prepared.gen {r : Ref} {idx : ℕ} {todo : List Store} {c : Conn}
    (h : Prepared e r idx todo c) (hno : ∀ g, Store.gen g ∉ todo) : c.gen = genOf r.tenancy := by
  obtain ⟨done, c₀, hlist, -, -, rfl⟩ := h
  rw [prepareStores_eq] at hlist
  rcases done with _ | ⟨x, _ | ⟨y, done⟩⟩
  · rw [List.nil_append] at hlist
    exact absurd (by simp [hlist]) (hno (genOf r.tenancy))
  · rw [List.singleton_append, List.cons.injEq] at hlist
    exact absurd (by simp [hlist.2]) (hno (genOf r.tenancy))
  · rw [List.cons_append, List.cons_append, List.cons.injEq, List.cons.injEq] at hlist
    obtain ⟨rfl, rfl, hrest⟩ := hlist
    rw [List.foldl_cons, List.foldl_cons, foldl_apply_gen]
    · rfl
    · intro z hz
      have hmem : z ∈ done ++ todo := List.mem_append_left todo hz
      rw [hrest] at hmem
      cases e <;> simp only [handoffStores, List.mem_cons, List.not_mem_nil, or_false] at hmem <;>
        rcases hmem with rfl | rfl | rfl | rfl | rfl | rfl | rfl | rfl <;> simp

/-- A slot that is being filled in is not active, or `registered` has been cleared. -/
theorem Prepared.registered {r : Ref} {idx : ℕ} {todo : List Store} {c : Conn}
    (h : Prepared e r idx todo c) (hstate : c.slotState = true) : c.registered = false := by
  obtain ⟨done, c₀, hlist, hinactive, -, rfl⟩ := h
  rcases done with _ | ⟨x, done⟩
  · exact absurd (hinactive.symm.trans hstate) (by decide)
  · obtain ⟨rfl, -⟩ := List.cons_eq_cons.mp hlist
    exact foldl_apply_registered r.slot done rfl

theorem Prepared.ready {r : Ref} {idx : ℕ} {c : Conn} (h : Prepared e r idx [] c) :
    c.Ready e r.slot idx := by
  obtain ⟨done, c₀, hlist, -, -, rfl⟩ := h
  rw [List.append_nil] at hlist
  subst hlist
  cases e <;> exact ⟨⟨rfl, rfl, rfl, rfl, rfl, rfl⟩, rfl, rfl, rfl⟩

/-! ### The other threads -/

section Others

variable {b : Agent}

theorem AgentOk.setHandshake {h : ℕ} {pc : HandshakePc} (hok : AgentOk e own st b)
    (hb : b ≠ .handshake h) : AgentOk e own (st.setHandshake h pc) b :=
  hok.frame (.of_eq rfl rfl fun _ hi => hi) (fun _ _ => ⟨rfl, rfl⟩) fun i hi =>
    Function.update_of_ne (by
      rintro rfl
      exact hb hi) _ _

theorem AgentOk.lock {w : ℕ} {holder : Option Agent} (hok : AgentOk e own st b)
    (hfree : st.listLock w = none) : AgentOk e own (st.setLock w holder) b := by
  refine hok.frame (.of_eq rfl rfl fun i hi => ?_) (fun _ _ => ⟨rfl, rfl⟩) fun _ _ => rfl
  have hne : i ≠ w := by
    rintro rfl
    simp [hfree] at hi
  simpa [EpollEngine.setLock, hne] using hi

theorem AgentOk.unlock {w : ℕ} {a : Agent} (hok : AgentOk e own st b)
    (hheld : st.listLock w = some a) (hba : b ≠ a) : AgentOk e own (st.setLock w none) b := by
  refine hok.frame (.of_eq rfl rfl fun i hi => ?_) (fun _ _ => ⟨rfl, rfl⟩) fun _ _ => rfl
  have hne : i ≠ w := by
    rintro rfl
    exact hba (Option.some.inj (hi.symm.trans hheld))
  simpa [EpollEngine.setLock, hne] using hi

end Others

theorem genPending_own {h s : ℕ} (hok : AgentOk e own st (.handshake h))
    (hpending : (st.handshake h).GenPending s) : own s = .thread h := by
  have hok' : HandshakeOk e own st h (st.handshake h) := hok
  cases hpc : st.handshake h with
  | prepare r idx roles todo =>
      rw [hpc] at hpending hok'
      obtain ⟨rfl, -⟩ := hpending
      exact hok'.1
  | _ =>
      rw [hpc] at hpending
      exact hpending.elim

theorem Pcs.gen_eq {s : ℕ} (hp : Pcs own st) (ha : ∀ a, AgentOk e own st a)
    (hown : ∀ h, own s = .thread h → ¬ (st.handshake h).GenPending s) :
    (st.conn s).gen = genOf (st.tenancy s) := by
  rcases hp.gens s with h | ⟨h, hpending⟩
  · exact h
  · exact absurd hpending (hown h (genPending_own (ha _) hpending))

theorem Pcs.not_adding {h : ℕ} (hp : Pcs own st)
    (hpc : ∀ r w roles, st.handshake h ≠ .add r w roles) (s w : ℕ) : own s ≠ .adding h w := by
  intro hs
  obtain ⟨r, roles, hadd, -⟩ := hp.adding s h w hs
  exact hpc r w roles hadd

theorem Pcs.setHandshake {h : ℕ} {pc : HandshakePc} (hp : Pcs own st)
    (hgen : ∀ s, (st.handshake h).GenPending s →
      pc.GenPending s ∨ (st.conn s).gen = genOf (st.tenancy s))
    (hadd : ∀ r w roles, st.handshake h = .add r w roles → ∃ roles', pc = .add r w roles') :
    Pcs own (st.setHandshake h pc) where
  gens s := by
    rcases hp.gens s with hs | ⟨i, hi⟩
    · exact Or.inl hs
    · by_cases hih : i = h
      · subst hih
        exact (hgen s hi).symm.imp_right fun hpc => ⟨i, by simpa [EpollEngine.setHandshake] using hpc⟩
      · exact Or.inr ⟨i, by simpa [EpollEngine.setHandshake, hih] using hi⟩
  adding s i w hs := by
    obtain ⟨r, roles, hpc, hr⟩ := hp.adding s i w hs
    by_cases hih : i = h
    · subst hih
      obtain ⟨roles', hpc'⟩ := hadd r w roles hpc
      exact ⟨r, roles', by simp [EpollEngine.setHandshake, hpc'], hr⟩
    · exact ⟨r, roles, by simp [EpollEngine.setHandshake, hih, hpc], hr⟩

theorem EngineInv.handshake {h : ℕ} {pc : HandshakePc} (hb : Base e own st)
    (hp : Pcs own (st.setHandshake h pc)) (ha : ∀ b, b ≠ .handshake h → AgentOk e own st b)
    (hpc : HandshakeOk e own st h pc) : EngineInv e (st.setHandshake h pc) := by
  refine ⟨own, { hb with }, hp, fun b => ?_⟩
  by_cases hbh : b = .handshake h
  · subst hbh
    show HandshakeOk e own _ h (Function.update st.handshake h pc h)
    rw [Function.update_self]
    exact hpc.frame (.of_eq rfl rfl fun _ hi => hi)
  · exact (ha b hbh).setHandshake hbh

/-- A slot that a handshake thread has, and whose stores the other threads do not see. -/
theorem AgentOk.touchThread {b : Agent} {h s₀ : ℕ} {o : Owner} {c : Conn} (hok : AgentOk e own st b)
    (hb : b ≠ .handshake h) (hown : (own s₀).OfThread h) (hsame : SameThreads st st')
    (hconn : st'.conn = Function.update st.conn s₀ c) :
    AgentOk e (Function.update own s₀ o) st' b := by
  refine hok.touch hsame hconn ?_ ?_
  · exact fun hheld => hb (hheld.unique (Or.inl hown))
  · rintro (⟨w, hw⟩ | ⟨-, hnot⟩)
    · rw [hw] at hown
      simp [Owner.OfThread] at hown
    · exact absurd hown (hnot h)

/-! ### The steps -/

section Steps

variable {h : ℕ} (hb : Base e own st) (hp : Pcs own st) (ha : ∀ a, AgentOk e own st a)

include hb hp ha

theorem prepare_inv {r : Ref} {idx : ℕ} {roles : List FdRole} {x : Store} {todo : List Store}
    (hpc : st.handshake h = .prepare r idx roles (x :: todo)) :
    EngineInv e ((st.setConn r.slot (x.apply e r.slot (st.conn r.slot))).setHandshake h
      (.prepare r idx roles todo)) := by
  obtain ⟨hown, hcur, hroles, hprep⟩ : HandshakeOk e own st h (.prepare r idx roles (x :: todo)) :=
    hpc ▸ ha (.handshake h)
  have hnext := hprep.next
  have hbase : Base e (Function.update own r.slot (.thread h))
      (st.setConn r.slot (x.apply e r.slot (st.conn r.slot))) :=
    hb.move rfl rfl rfl rfl rfl rfl (hb.lists.keep (by simp [hown])) (by simp [hown])
      hnext.registered (Store.apply_refs r.slot (hb.refs r.slot) x) (by simp [Owner.Ended, hown])
  have hpcs : Pcs (Function.update own r.slot (.thread h))
      ((st.setConn r.slot (x.apply e r.slot (st.conn r.slot))).setHandshake h
        (.prepare r idx roles todo)) := hp.step rfl (fun _ _ => rfl) rfl
    (by
      by_cases hmem : ∃ g, Store.gen g ∈ todo
      · exact Or.inr ⟨rfl, hmem⟩
      · refine Or.inl ((hnext.gen fun g hg => hmem ⟨g, hg⟩).trans ?_)
        rw [← hcur]
        rfl)
    (fun s hs hpending => by
      rw [hpc] at hpending
      exact hs hpending.1.symm)
    (by rintro _ _ ⟨⟩) (fun s w _ => hp.not_adding (by simp [hpc]) s w)
  refine EngineInv.handshake hbase hpcs (fun b hbh => ?_) ⟨by simp, hcur, hroles, ?_⟩
  · exact (ha b).touchThread hbh (Or.inl hown) ⟨rfl, rfl, rfl, rfl, rfl⟩ rfl
  · simpa [EpollEngine.setConn] using hnext

theorem setup_inv {r : Ref} {idx : ℕ} {roles : List FdRole}
    (hpc : st.handshake h = .prepare r idx roles []) :
    EngineInv e (st.setHandshake h (.setup r idx roles)) := by
  obtain ⟨hown, hcur, hroles, hprep⟩ : HandshakeOk e own st h (.prepare r idx roles []) :=
    hpc ▸ ha (.handshake h)
  refine EngineInv.handshake hb (hp.setHandshake (fun s hs => ?_) (by simp [hpc]))
    (fun b _ => ha b) ⟨hown, hcur, hroles, hprep.ready⟩
  rw [hpc] at hs
  obtain ⟨-, g, hg⟩ := hs
  simp at hg

/-- A thread that is neither filling in a slot nor registering moves on. -/
theorem handshake_inv {pc : HandshakePc} (hpending : ∀ s, ¬ (st.handshake h).GenPending s)
    (hadd : ∀ r w roles, st.handshake h ≠ .add r w roles) (hok : HandshakeOk e own st h pc) :
    EngineInv e (st.setHandshake h pc) :=
  EngineInv.handshake hb (hp.setHandshake (fun s hs => absurd hs (hpending s))
    fun r w roles hr => absurd hr (hadd r w roles)) (fun b _ => ha b) hok

theorem reopen_inv {r : Ref} {idx : ℕ} {roles : List FdRole}
    (hpc : st.handshake h = .setup r idx roles) :
    EngineInv e ((st.setConn r.slot { st.conn r.slot with closed := false }).setHandshake h
      (.lock r idx roles)) := by
  obtain ⟨hown, hcur, hroles, hready⟩ : HandshakeOk e own st h (.setup r idx roles) :=
    hpc ▸ ha (.handshake h)
  have hsame : { st.conn r.slot with closed := false } = st.conn r.slot := by
    rw [← hready.closed]
  have hst : st.setConn r.slot (st.conn r.slot) = st := by simp [EpollEngine.setConn]
  rw [hsame, hst]
  refine handshake_inv hb hp ha (by simp [hpc, HandshakePc.GenPending]) (by simp [hpc]) ?_
  exact ⟨hown, hcur, hroles, hready⟩

theorem lock_inv {r : Ref} {idx : ℕ} {roles : List FdRole}
    (hpc : st.handshake h = .lock r idx roles) (hfree : st.listLock idx = none) :
    EngineInv e ((st.setLock idx (some (.handshake h))).setHandshake h (.locked r idx roles)) := by
  obtain ⟨hown, hcur, hroles, hready⟩ : HandshakeOk e own st h (.lock r idx roles) :=
    hpc ▸ ha (.handshake h)
  have hlocked : Base e own (st.setLock idx (some (.handshake h))) := { hb with }
  refine handshake_inv hlocked { hp with } (fun b => (ha b).lock hfree)
    (by simp [hpc, EpollEngine.setLock, HandshakePc.GenPending])
    (by simp [hpc, EpollEngine.setLock]) ⟨hown, hcur, hroles, hready, ?_⟩
  simp [EpollEngine.setLock]

/-- A thread leaves the section under the lock with the connection still its own. -/
theorem unlock_inv {r : Ref} {idx : ℕ} (hlock : st.listLock idx = some (.handshake h))
    (hpending : ∀ s, ¬ (st.handshake h).GenPending s)
    (hadd : ∀ r w roles, st.handshake h ≠ .add r w roles) (hown : own r.slot = .thread h)
    (hcur : st.tenancy r.slot = r.tenancy) (hheld : (st.conn r.slot).Held e r.slot)
    (hreg : (st.conn r.slot).registered = false) :
    EngineInv e ((st.setLock idx none).setHandshake h (.unref r .call)) := by
  have hunlocked : Base e own (st.setLock idx none) := { hb with }
  refine EngineInv.handshake hunlocked ?_
    (fun b hbh => (ha b).unlock hlock hbh) ⟨hown, hcur, hheld, hreg⟩
  have hp' : Pcs own (st.setLock idx none) := { hp with }
  exact hp'.setHandshake (fun s hs => absurd hs (hpending s))
    fun r w roles hr => absurd hr (hadd r w roles)

/-! ### Under the lock of the list -/

theorem enlist_inv {r : Ref} {idx : ℕ} {roles : List FdRole}
    (hpc : st.handshake h = .locked r idx roles) :
    EngineInv e ((st.setList idx (r.slot :: st.connList idx)).setHandshake h
      (.add r idx roles)) := by
  obtain ⟨hown, hcur, hroles, hready, hlock⟩ : HandshakeOk e own st h (.locked r idx roles) :=
    hpc ▸ ha (.handshake h)
  have hbase : Base e (Function.update own r.slot (.adding h idx))
      (st.setList idx (r.slot :: st.connList idx)) :=
    hb.move (Function.update_eq_self r.slot st.conn).symm rfl rfl rfl rfl rfl
      (hb.lists.cons (by simp [hown]) (by simp [eq_comm])) (by simp [hown]) hready
      (hb.refs r.slot) (by simp [hown, Owner.Ended])
  have hgen := hp.gen_eq ha (s := r.slot) fun i hi hpending => by
    rw [hown, Owner.thread.injEq] at hi
    subst hi
    simp [hpc, HandshakePc.GenPending] at hpending
  have hpcs : Pcs (Function.update own r.slot (.adding h idx))
      ((st.setList idx (r.slot :: st.connList idx)).setHandshake h (.add r idx roles)) := hp.step
    (Function.update_eq_self r.slot st.conn).symm (fun _ _ => rfl) rfl (Or.inl hgen)
    (by simp [hpc, HandshakePc.GenPending])
    (by
      rintro i w ⟨⟩
      exact ⟨rfl, r, roles, rfl, rfl⟩)
    fun s w _ => hp.not_adding (by simp [hpc]) s w
  refine EngineInv.handshake hbase hpcs (fun b hbh => ?_) ⟨by simp, hcur, hroles, hlock⟩
  exact (ha b).touchThread hbh (Or.inl hown) ⟨rfl, rfl, rfl, rfl, rfl⟩
    (Function.update_eq_self r.slot st.conn).symm

theorem add_inv {r : Ref} {idx : ℕ} {role : FdRole} {roles : List FdRole}
    (hpc : st.handshake h = .add r idx (role :: roles)) :
    EngineInv e { st.setHandshake h (.add r idx roles) with
      issued := st.issued ++ [⟨(st.conn r.slot).epU64 ||| e.roleFlag role, r, role⟩] } := by
  obtain ⟨hown, hcur, ⟨l, hl, hroles⟩, hlock⟩ : HandshakeOk e own st h (.add r idx (role :: roles)) :=
    hpc ▸ ha (.handshake h)
  have hready : (st.conn r.slot).Ready e r.slot idx := by simpa [hown, SlotOk] using hb.slots r.slot
  have hgen := hp.gen_eq ha (s := r.slot) fun i hi => by simp [hown] at hi
  obtain ⟨hlt, hone⟩ := hb.bound r.slot (by simp [hown])
  have hissued : Issued.Ok e st.tenancy ⟨(st.conn r.slot).epU64 ||| e.roleFlag role, r, role⟩ := by
    refine ⟨?_, hlt, ⟨l, hl, hroles role List.mem_cons_self⟩, hcur ▸ hone, Nat.le_of_eq hcur.symm⟩
    rw [hready.epU64, hgen, hcur]
  have hbase : Base e own { st with
      issued := st.issued ++ [⟨(st.conn r.slot).epU64 ||| e.roleFlag role, r, role⟩] } :=
    { hb with
      issued := by
        intro i hi
        rcases List.mem_append.mp hi with hi | hi
        · exact hb.issued i hi
        · obtain rfl := List.mem_singleton.mp hi
          exact hissued
      verdicts := fun v hv => (hb.verdicts v hv).mono (fun _ => Nat.le_refl _)
        (List.subset_append_left _ _) }
  have hnext : HandshakeOk e own st h (.add r idx roles) :=
    ⟨hown, hcur, ⟨l, hl, fun role' hr => hroles role' (List.mem_cons_of_mem role hr)⟩, hlock⟩
  refine EngineInv.handshake hbase ?_ (fun b hbh => ?_) hnext
  · have hp' : Pcs own { st with
        issued := st.issued ++ [⟨(st.conn r.slot).epU64 ||| e.roleFlag role, r, role⟩] } :=
      { hp with }
    refine hp'.setHandshake (fun s hs => ?_) ?_
    · simp [hpc, HandshakePc.GenPending] at hs
    · intro r' w roles' hr
      obtain ⟨rfl, rfl, -⟩ : r = r' ∧ idx = w ∧ _ := by simpa [hpc] using hr
      exact ⟨roles, rfl⟩
  · exact (ha b).frame (.of_eq rfl rfl fun _ hi => hi) (fun _ _ => ⟨rfl, rfl⟩) fun _ _ => rfl

theorem rollback_inv {r : Ref} {idx : ℕ} {roles : List FdRole}
    (hpc : st.handshake h = .add r idx roles) :
    EngineInv e (((st.setConn r.slot { st.conn r.slot with closed := true }).setList idx
      ((st.connList idx).erase r.slot)).setHandshake h (.rollback r idx)) := by
  obtain ⟨hown, hcur, -, hlock⟩ : HandshakeOk e own st h (.add r idx roles) :=
    hpc ▸ ha (.handshake h)
  have hready : (st.conn r.slot).Ready e r.slot idx := by simpa [hown, SlotOk] using hb.slots r.slot
  have hgen := hp.gen_eq ha (s := r.slot) fun i hi => by simp [hown] at hi
  have hbase : Base e (Function.update own r.slot (.thread h))
      ((st.setConn r.slot { st.conn r.slot with closed := true }).setList idx
        ((st.connList idx).erase r.slot)) := hb.move rfl rfl rfl rfl rfl rfl
    (hb.lists.erase (by simp [hown]) (by simp)) (by simp [hown]) (fun _ => hready.registered)
    (hb.refs r.slot) (by simp [hown, Owner.Ended])
  have hpcs : Pcs (Function.update own r.slot (.thread h))
      (((st.setConn r.slot { st.conn r.slot with closed := true }).setList idx
        ((st.connList idx).erase r.slot)).setHandshake h (.rollback r idx)) := hp.step rfl
    (fun _ _ => rfl) rfl (Or.inl hgen) (by simp [hpc, HandshakePc.GenPending]) (by rintro _ _ ⟨⟩)
    (fun s w hs hadding => by
      obtain ⟨r', roles', hpc', hr'⟩ := hp.adding s h w hadding
      rw [hpc, HandshakePc.add.injEq] at hpc'
      exact hs (hpc'.1 ▸ hr').symm)
  refine EngineInv.handshake hbase hpcs (fun b hbh => ?_) ⟨by simp, hcur, ?_, ?_, hlock⟩
  · exact (ha b).touchThread hbh (Or.inr ⟨idx, hown⟩) ⟨rfl, rfl, rfl, rfl, rfl⟩ rfl
  · simpa [EpollEngine.setConn, EpollEngine.setList] using { hready.toHeld with }
  · simpa [EpollEngine.setConn, EpollEngine.setList] using hready.registered

/-- All descriptors are registered: from here on the connection is the worker's. -/
theorem listed_inv {r : Ref} {idx : ℕ} (hpc : st.handshake h = .add r idx []) :
    EngineInv e ((st.setLock idx none).setHandshake h (.added e r)) := by
  obtain ⟨hown, hcur, -, hlock⟩ : HandshakeOk e own st h (.add r idx []) := hpc ▸ ha (.handshake h)
  have hready : (st.conn r.slot).Ready e r.slot idx := by simpa [hown, SlotOk] using hb.slots r.slot
  have hgen := hp.gen_eq ha (s := r.slot) fun i hi => by simp [hown] at hi
  have hbase : Base e (Function.update own r.slot (.listed idx)) st := hb.move
    (Function.update_eq_self r.slot st.conn).symm rfl rfl rfl rfl rfl
    (hb.lists.keep (by simp [hown])) (by simp [hown]) ⟨hready.toHeld, hready.closed, hready.widx⟩
    (hb.refs r.slot) (by simp [hown, Owner.Ended])
  have hpcs : Pcs (Function.update own r.slot (.listed idx))
      ((st.setLock idx none).setHandshake h (.added e r)) := hp.step
    (Function.update_eq_self r.slot st.conn).symm (fun _ _ => rfl) rfl (Or.inl hgen)
    (by simp [hpc, HandshakePc.GenPending]) (by rintro _ _ ⟨⟩)
    (fun s w hs hadding => by
      obtain ⟨r', roles', hpc', hr'⟩ := hp.adding s h w hadding
      rw [hpc, HandshakePc.add.injEq] at hpc'
      exact hs (hpc'.1 ▸ hr').symm)
  have hunlocked : Base e (Function.update own r.slot (.listed idx)) (st.setLock idx none) :=
    { hbase with }
  refine EngineInv.handshake hunlocked hpcs (fun b hbh => ?_) ?_
  rotate_left
  · cases e <;> exact ⟨Nat.le_of_eq hcur.symm, fun _ => Or.inl ⟨idx, by simp⟩⟩
  have htouch : AgentOk e (Function.update own r.slot (.listed idx)) st b :=
    (ha b).touchThread hbh (Or.inr ⟨idx, hown⟩) ⟨rfl, rfl, rfl, rfl, rfl⟩
      (Function.update_eq_self r.slot st.conn).symm
  exact htouch.unlock hlock hbh

/-- `registered = 1`, while the connection is still the one that the thread handed over. -/
theorem register_inv {r : Ref} (hpc : st.handshake h = .register r)
    (hcond : st.tenancy r.slot = r.tenancy) :
    EngineInv e ((st.setConn r.slot { st.conn r.slot with registered := true }).setHandshake h
      .idle) := by
  obtain ⟨-, hsettled⟩ : HandshakeOk e own st h (.register r) := hpc ▸ ha (.handshake h)
  have hs := hsettled hcond
  have hthread : ∀ i, ¬ (own r.slot).OfThread i := by
    rcases hs with ⟨w, hw⟩ | hs
    · simp [hw, Owner.OfThread]
    · exact hs.2
  have hbase : Base e own (st.setConn r.slot { st.conn r.slot with registered := true }) :=
    { hb with
      slots := by
        intro s
        by_cases hne : s = r.slot
        · subst hne
          have hslot := hb.slots r.slot
          simp only [EpollEngine.setConn, Function.update_self]
          rcases ho : own r.slot with _ | i | ⟨i, w⟩ | w | w | a | _ <;> rw [ho] at hslot hs
          · exact hslot
          · exact absurd (Or.inl ho) (hthread i)
          · exact absurd (Or.inr ⟨w, ho⟩) (hthread i)
          · exact ⟨{ hslot.1 with }, hslot.2⟩
          · exact ⟨{ hslot.1 with }, hslot.2⟩
          · exact ⟨hslot.1, hslot.2.1, Or.inl (Owner.ending_settled_closed hs)⟩
          · exact hslot
        · simpa [EpollEngine.setConn, hne] using hb.slots s
      refs := by
        intro s
        by_cases hne : s = r.slot
        · subst hne
          simpa [EpollEngine.setConn] using hb.refs r.slot
        · simpa [EpollEngine.setConn, hne] using hb.refs s }
  have hpcs : Pcs own (st.setConn r.slot { st.conn r.slot with registered := true }) :=
    { hp with
      gens := by
        intro s
        by_cases hne : s = r.slot
        · subst hne
          simpa [EpollEngine.setConn] using hp.gens r.slot
        · simpa [EpollEngine.setConn, hne] using hp.gens s }
  refine handshake_inv hbase hpcs (fun b => ?_)
    (by simp [hpc, EpollEngine.setConn, HandshakePc.GenPending]) (by simp [hpc, EpollEngine.setConn])
    trivial
  refine (ha b).frame ⟨fun _ hi => hi, fun s _ => ⟨rfl, rfl, ?_, ?_, ?_⟩, fun s i _ hi => ?_,
    fun _ => Nat.le_refl _, fun s _ hset => ?_⟩ (fun _ _ => ⟨rfl, rfl⟩) fun _ _ => rfl
  · by_cases hne : s = r.slot <;> simp [EpollEngine.setConn, hne]
  · by_cases hne : s = r.slot <;> simp [EpollEngine.setConn, hne]
  · by_cases hne : s = r.slot <;> simp [EpollEngine.setConn, hne]
  · have hne : s ≠ r.slot := fun h => hthread i (h ▸ hi)
    simp [EpollEngine.setConn, hne]
  · by_cases hne : s = r.slot
    · subst hne
      simpa [EpollEngine.setConn, Owner.Settled] using hset
    · simpa [EpollEngine.setConn, hne] using hset

omit hb hp in
/-- A handshake thread only unreferences the connection that it could not hand over. -/
theorem handshake_unrefs {r : Ref} {pc : UnrefPc} (hpc : st.handshake h = .unref r pc) :
    Unrefs e own st (.handshake h) r pc := by
  have hok : HandshakeOk e own st h (.unref r pc) := hpc ▸ ha (.handshake h)
  cases pc with
  | call =>
      obtain ⟨hown, hcur, hheld, hreg⟩ := hok
      exact ⟨hown, hcur, hheld, Or.inr hreg⟩
  | exchange | poison | release | push s => exact hok

theorem unref_inv {r : Ref} {pc : UnrefPc} (hpc : st.handshake h = .unref r pc)
    {p : EpollEngine × Option UnrefPc} (hstep : st.unrefStep r pc = some p) :
    EngineInv e (p.1.setHandshake h (match p.2 with
      | some pc => .unref r pc
      | none => .idle)) := by
  obtain ⟨st', u⟩ := p
  obtain ⟨o, hbase, hpcs, hothers, hnext, hsame⟩ :=
    unrefStep_inv hb hp (fun b _ => ha b) (handshake_unrefs ha hpc) hstep
  refine EngineInv.handshake hbase (hpcs.setHandshake (fun s hs => ?_) fun r' w roles hr => ?_)
    hothers ?_
  · simp [hsame.handshake, hpc, HandshakePc.GenPending] at hs
  · simp [hsame.handshake, hpc] at hr
  · cases u with
    | none => trivial
    | some pc' =>
        obtain ⟨hne, hfin⟩ := hnext pc' rfl
        cases pc' with
        | call => exact absurd rfl hne
        | exchange | poison | release | push s => exact hfin

/-! ### A new connection -/

theorem handoff_inv {s idx : ℕ} {rest : List ℕ} {roles : List FdRole}
    (hpc : st.handshake h = .idle) (hfree : st.freeSlots = s :: rest) (hroles : roles ∈ e.roleLists) :
    EngineInv e { (st.setConn s { st.conn s with gen := (st.conn s).gen + 1 }).setHandshake h
        (.prepare ⟨s, st.tenancy s + 1⟩ idx roles
          (slotAcquireStores ((st.conn s).gen + 1) ++ handoffStores e idx)) with
      freeSlots := rest
      tenancy := Function.update st.tenancy s (st.tenancy s + 1) } := by
  obtain ⟨hnodup, hmem⟩ := hfree ▸ hb.free
  obtain ⟨hs, hrest⟩ := List.nodup_cons.mp hnodup
  obtain ⟨hown, hlt⟩ := hmem s List.mem_cons_self
  have hgen : (st.conn s).gen + 1 = genOf (st.tenancy s + 1) := by
    rw [genOf_succ, hp.gen_eq ha (s := s) fun i hi => by simp [hown] at hi]
  have hmono : ∀ t, st.tenancy t ≤ Function.update st.tenancy s (st.tenancy s + 1) t := by
    intro t
    by_cases ht : t = s
    · subst ht
      simp
    · simp [ht]
  set st₁ : EpollEngine := { st.setConn s { st.conn s with gen := (st.conn s).gen + 1 } with
    freeSlots := rest
    tenancy := Function.update st.tenancy s (st.tenancy s + 1) } with hst₁
  have hslot : SlotOk e s .free (st.conn s) := hown ▸ hb.slots s
  have hbase : Base e (Function.update own s (.thread h)) st₁ :=
    { slots := by
        intro t
        by_cases ht : t = s
        · subst ht
          have hinactive : (st.conn t).slotState = false := hslot
          simp [hst₁, EpollEngine.setConn, SlotOk, hinactive]
        · simpa [hst₁, EpollEngine.setConn, ht] using hb.slots t
      refs := by
        intro t
        by_cases ht : t = s
        · subst ht
          simpa [hst₁, EpollEngine.setConn] using hb.refs t
        · simpa [hst₁, EpollEngine.setConn, ht] using hb.refs t
      bound := by
        intro t hne
        by_cases ht : t = s
        · subst ht
          exact ⟨hlt, by simp [hst₁]⟩
        · simpa [hst₁, ht] using hb.bound t (by simpa [ht] using hne)
      lists := hb.lists.keep (by simp [hown])
      free := by
        refine ⟨hrest, fun t ht => ?_⟩
        have hne : t ≠ s := fun h => hs (h ▸ ht)
        simpa [hne] using hmem t (List.mem_cons_of_mem s ht)
      log := hb.log
      logged := by
        intro u hu
        obtain ⟨h1, h2, h3⟩ := hb.logged u hu
        refine ⟨h1, Nat.le_trans h2 (hmono _), fun hcur => ?_⟩
        by_cases ht : u.ref.slot = s
        · rw [hst₁, ht] at hcur
          rw [ht] at h2
          simp only [Function.update_self] at hcur
          omega
        · rw [Function.update_of_ne ht]
          exact h3 (by simpa [hst₁, ht] using hcur)
      issued := fun i hi => (hb.issued i hi).mono hmono
      verdicts := fun v hv => (hb.verdicts v hv).mono hmono (List.Subset.refl _) }
  show EngineInv e (st₁.setHandshake h (.prepare ⟨s, st.tenancy s + 1⟩ idx roles
    (slotAcquireStores ((st.conn s).gen + 1) ++ handoffStores e idx)))
  refine EngineInv.handshake hbase ?_ (fun b hbh => ?_) ?_
  · refine hp.step (c := { st.conn s with gen := (st.conn s).gen + 1 }) rfl
      (fun t ht => by simp [hst₁, EpollEngine.setHandshake, ht]) rfl
      (Or.inr ⟨rfl, (st.conn s).gen + 1, by simp [slotAcquireStores]⟩)
      (by simp [hpc, HandshakePc.GenPending]) (by rintro _ _ ⟨⟩) fun t w _ => hp.not_adding (by simp [hpc]) t w
  · refine (ha b).frame ⟨fun _ hi => hi, fun t ht => ?_, fun t i hi ht => ?_, hmono,
      fun t ht hset => ?_⟩ (fun _ _ => ⟨rfl, rfl⟩) fun _ _ => rfl
    · have hne : t ≠ s := by
        rintro rfl
        rw [hown] at ht
        cases b <;> simp [Owner.HeldBy, Owner.OfThread] at ht
      simp [hst₁, EpollEngine.setConn, hne]
    · have hne : t ≠ s := by
        rintro rfl
        simp [hown, Owner.OfThread] at ht
      simp [hst₁, EpollEngine.setConn, hne]
    · have hne : t ≠ s := by
        rintro rfl
        simp [hst₁] at ht
      simpa [hst₁, EpollEngine.setConn, hne] using hset
  · refine ⟨by simp, by simp [hst₁], ⟨roles, hroles, fun _ hr => hr⟩, [],
      { st.conn s with gen := (st.conn s).gen + 1 }, ?_, hslot, hb.refs s, ?_⟩
    · rw [hgen]
      rfl
    · simp [hst₁, EpollEngine.setConn]

end Steps

/-- Every step of a handshake thread keeps the invariant, unless it sets `registered` on a slot that
has passed to another connection. -/
theorem handshakeStep_inv {h : ℕ} {ok : Bool} (hinv : EngineInv e st)
    (hcond : ∀ r, st.handshake h = .register r → st.tenancy r.slot = r.tenancy)
    (hstep : st.handshakeStep e h ok = some st') : EngineInv e st' := by
  obtain ⟨own, hb, hp, ha⟩ := hinv
  have hok : HandshakeOk e own st h (st.handshake h) := ha (.handshake h)
  cases EpollEngine.handshake_transition hstep with
  | store r idx roles x todo hpc => exact prepare_inv hb hp ha hpc
  | prepared r idx roles hpc => exact setup_inv hb hp ha hpc
  | setupTcp r idx roles hpc he => exact reopen_inv hb hp ha hpc
  | setupUdp r idx roles hpc he =>
      rw [hpc] at hok
      obtain ⟨hown, hcur, hroles, hready⟩ := hok
      exact handshake_inv hb hp ha (by simp [hpc, HandshakePc.GenPending]) (by simp [hpc])
        ⟨hown, hcur, hroles, he ▸ hready⟩
  | setupFailed r idx roles hpc =>
      rw [hpc] at hok
      obtain ⟨hown, hcur, hroles, hready⟩ := hok
      exact handshake_inv hb hp ha (by simp [hpc, HandshakePc.GenPending]) (by simp [hpc])
        ⟨hown, hcur, hready.toHeld, hready.registered⟩
  | lock r idx roles hpc hfree => exact lock_inv hb hp ha hpc hfree
  | refuse r idx roles hpc hstopping =>
      rw [hpc] at hok
      obtain ⟨hown, hcur, -, hready, hlock⟩ := hok
      exact unlock_inv hb hp ha hlock (by simp [hpc, HandshakePc.GenPending]) (by simp [hpc]) hown
        hcur hready.toHeld hready.registered
  | enlist r idx roles hpc hrunning => exact enlist_inv hb hp ha hpc
  | add r idx role roles hpc => exact add_inv hb hp ha hpc
  | addFailed r idx role roles hpc => exact rollback_inv hb hp ha hpc
  | added r idx hpc => exact listed_inv hb hp ha hpc
  | rollback r idx hpc =>
      rw [hpc] at hok
      obtain ⟨hown, hcur, hheld, hreg, hlock⟩ := hok
      exact unlock_inv hb hp ha hlock (by simp [hpc, HandshakePc.GenPending]) (by simp [hpc]) hown
        hcur hheld hreg
  | stamp r hpc =>
      rw [hpc] at hok
      exact handshake_inv hb hp ha (by simp [hpc, HandshakePc.GenPending]) (by simp [hpc]) hok
  | register r hpc => exact register_inv hb hp ha hpc (hcond r hpc)
  | unref r u st₁ u' hpc hunref => exact unref_inv hb hp ha hpc hunref
  | finalized r u st₁ hpc hunref => exact unref_inv hb hp ha hpc hunref

theorem handoffStep_inv {h idx : ℕ} {roles : List FdRole} (hinv : EngineInv e st)
    (hstep : st.handoffStep e h idx roles = some st') : EngineInv e st' := by
  obtain ⟨own, hb, hp, ha⟩ := hinv
  unfold EpollEngine.handoffStep at hstep
  split at hstep
  case isFalse => cases hstep
  case isTrue hready =>
    split at hstep
    case h_1 =>
      obtain rfl := Option.some.inj hstep
      exact ⟨own, hb, hp, ha⟩
    case h_2 s rest hfree =>
      obtain rfl := Option.some.inj hstep
      exact handoff_inv hb hp ha hready.1 hfree hready.2.2.2

end FiveGProxy
