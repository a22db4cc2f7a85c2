import FiveGProxy.Slots.ListForeign

/-!
# Handing a connection to the worker of a list

The threads that work for worker `me` make the same steps in its list, but for the stores into the
slot: there they are one step, and the list has the slot filled in only when they are all done. The
registration of the descriptors is under the lock on both sides.
-/

namespace FiveGProxy

open Steps

variable {me : ℕ} {own own' : ℕ → Owner} {eng eng' : EpollEngine} {lst lst' : ListRun}
  {h i v s : ℕ} {r : Ref} {c : Conn}

/-! ### Unreferencing -/

/-- A step of `conn_unref` on a connection of `me` that is off the list. -/
theorem ShowsSlots.unrefStep (hs : ShowsSlots me eng lst) {u : UnrefPc} {u' : Option UnrefPc}
    {eng₁ : EpollEngine} (hok : UnrefOk me lst r u) (hlist : lst.links.IsList lst.members)
    (hnot : r.slot ∉ lst.members) (hconn : lst.conn r.slot = eng.conn r.slot)
    (hlock : lst.listLock = eng.listLock me)
    (hapart : ∀ i q todo, (eng.handshake i).fill me = some (q, todo) → q.slot ≠ r.slot)
    (hstep : eng.unrefStep r u = some (eng₁, u')) :
    ∃ lst₁, lst.unrefStep me r u = some (lst₁, u') ∧ ShowsSlots me eng₁ lst₁ ∧
      SameList lst lst₁ ∧ lst₁.foreign = lst.foreign := by
  have hwidx : (eng.conn r.slot).widx = me := by rw [← hconn, hok.widx]
  have hslot : (eng.conn r.slot).slot = r.slot := by rw [← hconn, hok.slot]
  cases u with
  | call =>
      simp only [EpollEngine.unrefStep, ← hconn, Option.some.injEq, Prod.mk.injEq] at hstep
      obtain ⟨rfl, rfl⟩ := hstep
      refine ⟨_, rfl, ?_, ⟨rfl, rfl, rfl, rfl, rfl⟩, rfl⟩
      exact hs.touch rfl rfl rfl (fun _ => rfl) hapart rfl rfl rfl
  | exchange =>
      simp only [EpollEngine.unrefStep, ← hconn, Option.some.injEq, Prod.mk.injEq] at hstep
      obtain ⟨rfl, rfl⟩ := hstep
      refine ⟨_, rfl, ?_, ⟨rfl, rfl, rfl, rfl, rfl⟩, rfl⟩
      exact hs.touch rfl rfl rfl (fun _ => rfl) hapart rfl rfl rfl
  | poison =>
      have hhead : lst.links.head ≠ some r.slot := by
        rw [hlist.head_eq]
        exact fun heq => hnot (List.mem_of_head? heq)
      have hlinked : ¬((lst.links.next r.slot).isSome ∨ (lst.links.prev r.slot).isSome ∨
          lst.links.head = some r.slot) := by
        simp [hok.alone.1, hok.alone.2, hhead]
      simp only [EpollEngine.unrefStep, hwidx] at hstep
      split at hstep
      case isTrue hfree =>
        simp only [Option.some.injEq, Prod.mk.injEq] at hstep
        obtain ⟨rfl, rfl⟩ := hstep
        refine ⟨lst.setConn r.slot { lst.conn r.slot with magic := 0 }, ?_, ?_,
          ⟨rfl, rfl, rfl, rfl, rfl⟩, rfl⟩
        · simp only [ListRun.unrefStep, hok.widx, ne_eq, not_true_eq_false, if_false,
            hlock.trans hfree, if_true, hlinked]
        · exact hs.touch (c := { lst.conn r.slot with magic := 0 })
            (by simp only [hconn, hwidx]; rfl) rfl rfl
            (fun _ => rfl) hapart rfl rfl rfl
      case isFalse => cases hstep
  | release =>
      simp only [EpollEngine.unrefStep, hslot, Option.some.injEq, Prod.mk.injEq] at hstep
      obtain ⟨rfl, rfl⟩ := hstep
      refine ⟨lst.setConn r.slot { lst.conn r.slot with slotState := false }, ?_, ?_,
        ⟨rfl, rfl, rfl, rfl, rfl⟩, rfl⟩
      · simp only [ListRun.unrefStep, hok.slot]
      · exact hs.touch (c := { lst.conn r.slot with slotState := false })
          (by simp only [hconn, hslot]; rfl) rfl rfl (fun _ => rfl) hapart rfl rfl rfl
  | push t =>
      obtain ⟨rfl, -⟩ := hok.push t rfl
      simp only [EpollEngine.unrefStep, Option.some.injEq, Prod.mk.injEq] at hstep
      obtain ⟨rfl, rfl⟩ := hstep
      refine ⟨_, rfl, hs.push hconn rfl rfl rfl (fun _ => rfl) rfl rfl ?_,
        ⟨rfl, rfl, rfl, rfl, rfl⟩, rfl⟩
      rfl

/-! ### Threads of the worker -/

section Threads

variable {pc : HandshakePc} {pc' : HandoffPc}

/-- What a step for worker `me` leaves alone, on both sides. -/
structure OwnFrame (me : ℕ) (eng eng' : EpollEngine) (lst lst' : ListRun) : Prop where
  tenancy : eng'.tenancy = eng.tenancy := by rfl
  freeSlots : ∀ s ∈ eng.freeSlots, s ∈ eng'.freeSlots := by intros; assumption
  stopping : eng'.stopping = eng.stopping := by rfl
  foreign : lst'.foreign = lst.foreign := by rfl
  lists : ∀ v, v ≠ me → eng'.connList v = eng.connList v := by intros; rfl
  garbage : ∀ v, v ≠ me → eng'.garbage v = eng.garbage v := by intros; rfl

/-- A step of a thread leaves the worker alone. -/
structure WorkerStill (eng eng' : EpollEngine) (lst lst' : ListRun) : Prop where
  worker : eng'.worker = eng.worker := by rfl
  garbage : eng'.garbage = eng.garbage := by rfl
  worker' : lst'.worker = lst.worker := by rfl
  garbage' : lst'.garbage = lst.garbage := by rfl

theorem OwnFrame.listFrame (hown : OwnFrame me eng eng' lst lst')
    (hworkers : ∀ v, v ≠ me → eng'.worker v = eng.worker v) :
    ListFrame me eng eng' lst lst' where
  tenancy t := Nat.le_of_eq (by rw [hown.tenancy])
  freed t ht := .inl (hown.freeSlots t ht)
  foreign t ht := .inl (hown.foreign ▸ ht)
  workers v hv t hhas := by
    rw [EpollEngine.WorkerHas, hown.lists v hv, hworkers v hv, hown.garbage v hv] at hhas
    exact .inl hhas

/-- A step of a thread that works for `me`. -/
theorem ShowsList.thread (hl : ShowsList me eng lst) (ha : ∀ a, AgentOk .tcp own eng a)
    (hb' : Base .tcp own' eng') (ha' : ∀ a, AgentOk .tcp own' eng' a)
    (hown : OwnFrame me eng eng' lst lst') (hstill : WorkerStill eng eng' lst lst')
    (hhandshake : eng'.handshake = Function.update eng.handshake h pc)
    (hhandshake' : lst'.handshake = Function.update lst.handshake h pc')
    (hshown : ThreadShown me pc pc') (hslots : ShowsSlots me eng' lst')
    (hlock : lst'.listLock = eng'.listLock me)
    (hmembers : lst'.members = eng'.enlisting me ++ eng'.connList me) : ShowsList me eng' lst' := by
  have hframe := hown.listFrame fun _ _ => by rw [hstill.worker]
  refine ⟨hslots, hl.places.thread ha hb' ha' hframe hhandshake (fun i hi => ?_) (.inl ?_)
    hstill.worker hstill.garbage hown.stopping hstill.worker' hstill.garbage' hlock hmembers⟩
  · rw [hhandshake', Function.update_of_ne hi]
  · rwa [hhandshake', Function.update_self]

/-- The list and its lock are as before. -/
theorem members_thread (hp : ShowsPlaces me eng lst)
    (hhandshake : eng'.handshake = Function.update eng.handshake h pc)
    (henlists : pc.enlists me = (eng.handshake h).enlists me)
    (hlock : eng'.listLock = eng.listLock) (hlist : eng'.connList = eng.connList) :
    lst.members = eng'.enlisting me ++ eng'.connList me := by
  rw [hp.members, hlist, enlisting_congr (congrFun hlock me) fun i => ?_]
  rw [hhandshake]
  by_cases hi : i = h
  · rw [hi, Function.update_self, henlists]
  · rw [Function.update_of_ne hi]

theorem fill_thread (hhandshake : eng'.handshake = Function.update eng.handshake h pc)
    (hfill : pc.fill me = (eng.handshake h).fill me) (i : ℕ) :
    (eng'.handshake i).fill me = (eng.handshake i).fill me := by
  rw [hhandshake]
  by_cases hi : i = h
  · rw [hi, Function.update_self, hfill]
  · rw [Function.update_of_ne hi]

/-- No other thread fills in the slot of thread `h`. -/
theorem fill_apart (ha : ∀ a, AgentOk .tcp own eng a) (hown : own s = .thread h) (hi : i ≠ h)
    {todo : List Store} (hfill : (eng.handshake i).fill me = some (r, todo)) : r.slot ≠ s := by
  rintro rfl
  have hthread := (fill_own ha hfill).symm.trans hown
  exact hi (Owner.thread.inj hthread)

/-- The next store into a new slot. -/
theorem ShowsSlots.store (hs : ShowsSlots me eng lst) (hb : Base .tcp own eng)
    (ha : ∀ a, AgentOk .tcp own eng a) {x : Store} {todo : List Store} {roles : List FdRole}
    (hpc : eng.handshake h = .prepare r me roles (x :: todo)) (hown : own r.slot = .thread h)
    (hconn : eng'.conn =
      Function.update eng.conn r.slot (x.apply .tcp r.slot (eng.conn r.slot)))
    (hhandshake : eng'.handshake = Function.update eng.handshake h (.prepare r me roles todo))
    (htenancy : eng'.tenancy = eng.tenancy) (hfree : eng'.freeSlots = eng.freeSlots) :
    ShowsSlots me eng' lst := by
  have hfill : (eng.handshake h).fill me = some (r, x :: todo) := by
    rw [hpc]
    exact if_pos rfl
  have hfill' : (eng'.handshake h).fill me = some (r, todo) := by
    rw [hhandshake, Function.update_self]
    exact if_pos rfl
  have hnot := not_mem_free hb (s := r.slot) (by simp [hown])
  refine ⟨by rw [htenancy, hs.tenancy], by rw [hfree, hs.freeSlots], fun t ht => ?_,
    fun i q l hi => ?_, fun t ht hdone => ?_⟩
  · have hne : t ≠ r.slot := by
      rintro rfl
      exact hnot (hfree ▸ ht)
    rw [hconn, Function.update_of_ne hne]
    exact hs.gen t (hfree ▸ ht)
  · by_cases hih : i = h
    · subst hih
      cases hfill'.symm.trans hi
      rw [hconn, Function.update_self]
      exact hs.filling i r (x :: todo) hfill
    · rw [hhandshake, Function.update_of_ne hih] at hi
      rw [hconn, Function.update_of_ne (fill_apart ha hown hih hi)]
      exact hs.filling i q l hi
  · have hne : t ≠ r.slot := fun htr => hdone h r todo hfill' htr.symm
    rw [hconn, Function.update_of_ne hne]
    refine hs.conn t (hfree ▸ ht) fun i q l hi => ?_
    by_cases hih : i = h
    · subst hih
      cases hfill.symm.trans hi
      exact hne.symm
    · exact hdone i q l (by rwa [hhandshake, Function.update_of_ne hih])

/-- The slot is filled in, and both have the same there from now on. -/
theorem ShowsSlots.filled (hs : ShowsSlots me eng lst) (ha : ∀ a, AgentOk .tcp own eng a)
    {roles : List FdRole} (hpc : eng.handshake h = .setup r me roles)
    (hown : own r.slot = .thread h)
    (hconn : eng'.conn = Function.update eng.conn r.slot (eng.conn r.slot))
    (hhandshake : eng'.handshake = Function.update eng.handshake h pc) (hdone : pc.fill me = none)
    (htenancy : eng'.tenancy = eng.tenancy) (hfree : eng'.freeSlots = eng.freeSlots)
    (hconn' : lst'.conn =
      Function.update lst.conn r.slot (ListRun.filled me r.slot (lst.conn r.slot)))
    (htenancy' : lst'.tenancy = lst.tenancy) (hfree' : lst'.freeSlots = lst.freeSlots) :
    ShowsSlots me eng' lst' := by
  have hfill : (eng.handshake h).fill me = some (r, []) := by
    rw [hpc]
    exact if_pos rfl
  have hready : ListRun.filled me r.slot (lst.conn r.slot) = eng.conn r.slot :=
    hs.filling h r [] hfill
  refine hs.update hconn htenancy hfree (fun i q l hi => ?_) (fun i q l hi => ?_)
    (by rw [hconn', hready]) htenancy' hfree'
  · by_cases hih : i = h
    · rw [hhandshake, hih, Function.update_self, hdone] at hi
      cases hi
    · rw [hhandshake, Function.update_of_ne hih] at hi
      exact ⟨hi, fill_apart ha hown hih hi⟩
  · by_cases hih : i = h
    · subst hih
      cases hfill.symm.trans hi
      exact .inr rfl
    · exact .inl (by rwa [hhandshake, Function.update_of_ne hih])

theorem unrefStep_freeSlots {u : UnrefPc} {u' : Option UnrefPc}
    (hunref : eng.unrefStep r u = some (eng', u')) : eng.freeSlots ⊆ eng'.freeSlots := by
  cases u with
  | poison =>
      simp only [EpollEngine.unrefStep] at hunref
      split at hunref
      · cases hunref
        exact List.Subset.refl _
      · cases hunref
  | call | exchange | release =>
      cases hunref
      exact List.Subset.refl _
  | push t =>
      cases hunref
      exact List.subset_cons_self t _

/-- The thread unreferences the connection that it could not hand over. -/
theorem ShowsList.threadUnref (hl : ShowsList me eng lst) (hinv : ListInv me lst)
    (hb : Base .tcp own eng) (ha : ∀ a, AgentOk .tcp own eng a) {u : UnrefPc} {u' : Option UnrefPc}
    {eng₁ : EpollEngine} (hb' : Base .tcp own' (eng₁.setHandshake h pc))
    (ha' : ∀ a, AgentOk .tcp own' (eng₁.setHandshake h pc) a) (hpc : eng.handshake h = .unref r u)
    (hpc' : lst.handshake h = .unref r u) (hunref : eng.unrefStep r u = some (eng₁, u'))
    (hshown : ThreadShown me pc (ListRun.threadUnref r u'))
    (hnone : pc.fill me = none ∧ pc.enlists me = none) :
    ∃ lst', Reaches (listStep me) lst lst' ∧ ShowsList me (eng₁.setHandshake h pc) lst' := by
  obtain ⟨holder, howned⟩ := hinv.owned
  have hok := howned.threads h
  rw [hpc'] at hok
  have hun := handshake_unrefs ha hpc
  have hfill : (eng.handshake h).fill me = none := by
    rw [hpc]
    rfl
  have hapart : ∀ i q todo, (eng.handshake i).fill me = some (q, todo) → q.slot ≠ r.slot := by
    intro i q todo hi hq
    have hthread := fill_own ha hi
    rw [hq] at hthread
    by_cases hih : i = h
    · rw [hih, hfill] at hi
      cases hi
    · cases u with
      | call => exact hih (Owner.thread.inj (hthread.symm.trans hun.own))
      | exchange | poison | release | push t => cases hthread.symm.trans hun.1
  have hconn := hl.slots.conn r.slot (not_mem_free hb hun.own_ne_free) hapart
  have hnot : r.slot ∉ lst.members := howned.base.not_mem (by simp [hok.1])
  obtain ⟨lst₁, hstep, hslots, hsame, hforeign⟩ :=
    hl.slots.unrefStep hok.2 howned.base.list hnot hconn hl.places.lock hapart hunref
  obtain ⟨hlist, -⟩ := unrefStep_place hb hun hunref
  have hframe := EpollEngine.unref_frame hunref
  have hnext : listStep me lst (.handshake h true) =
      some (lst₁.setHandshake h (ListRun.threadUnref r u')) := by
    simp only [listStep, ListRun.handshakeStep, hpc', hstep, Option.map_some]
    cases u' <;> rfl
  have hhandshake : (eng₁.setHandshake h pc).handshake = Function.update eng.handshake h pc := by
    rw [← hframe.handshake]
    rfl
  have hown : OwnFrame me eng (eng₁.setHandshake h pc) lst
      (lst₁.setHandshake h (ListRun.threadUnref r u')) :=
    { tenancy := hframe.tenancy
      freeSlots := fun _ ht => unrefStep_freeSlots hunref ht
      stopping := hframe.stopping
      foreign := hforeign
      lists := fun v _ => congrFun hlist v
      garbage := fun v _ => congrFun hframe.garbage v }
  refine ⟨_, .single hnext, hl.thread ha hb' ha' hown
    ⟨hframe.worker, hframe.garbage, hsame.worker, hsame.garbage⟩ hhandshake
    (by rw [← hsame.handshake]; rfl) hshown ?_ ?_ ?_⟩
  · refine hslots.same {} (fill_thread rfl ?_)
    rw [hframe.handshake, hnone.1, hfill]
  · exact hsame.listLock.trans (hl.places.lock.trans (congrFun hframe.listLock me).symm)
  · refine hsame.members.trans (members_thread hl.places hhandshake ?_ hframe.listLock hlist)
    rw [hnone.2, hpc]
    rfl

/-- A step of a thread that hands a connection to `me`, store by store. -/
theorem ShowsList.threadStep (hl : ShowsList me eng lst) (hinv : ListInv me lst)
    (hb : Base .tcp own eng) (ha : ∀ a, AgentOk .tcp own eng a) (hb' : Base .tcp own' eng')
    (ha' : ∀ a, AgentOk .tcp own' eng' a)
    (hshown : ThreadShown me (eng.handshake h) (lst.handshake h))
    (hcond : HandshakeActsOnOwn eng (eng.handshake h)) {ok : Bool}
    (hstep : eng.handshakeStep .tcp h ok = some eng') :
    ∃ lst', Reaches (listStep me) lst lst' ∧ ShowsList me eng' lst' := by
  have hok : HandshakeOk .tcp own eng h (eng.handshake h) := ha (.handshake h)
  have hstay : ∀ {p : HandoffPc}, lst.handshake h = p →
      lst.handshake = Function.update lst.handshake h p := by
    rintro p rfl
    exact (Function.update_eq_self h lst.handshake).symm
  have hnext : ∀ ok, listStep me lst (.handshake h ok) = lst.handshakeStep me h ok := fun _ => rfl
  have moves := @ShowsList.thread me own own' eng eng' lst
  have hfills : ∀ {p pc}, eng.handshake h = p →
      eng'.handshake = Function.update eng.handshake h pc → pc.fill me = p.fill me →
      ∀ i, (eng'.handshake i).fill me = (eng.handshake i).fill me := by
    rintro p pc rfl hhandshake hfill
    exact fill_thread hhandshake hfill
  have hmembers : ∀ {p pc}, eng.handshake h = p →
      eng'.handshake = Function.update eng.handshake h pc → pc.enlists me = p.enlists me →
      eng'.listLock = eng.listLock → eng'.connList = eng.connList →
      lst.members = eng'.enlisting me ++ eng'.connList me := by
    rintro p pc rfl hhandshake henlists
    exact members_thread hl.places hhandshake henlists
  cases EpollEngine.handshake_transition hstep with
  | store r idx roles x todo hpc =>
      rw [hpc] at hok hshown
      generalize hpc' : lst.handshake h = p at hshown
      cases hshown
      exact ⟨lst, .refl lst, moves hl ha hb' ha' {} {} rfl (hstay hpc') (.prepare r roles todo)
        (hl.slots.store hb ha hpc hok.1 rfl rfl rfl rfl) hl.places.lock
        (hmembers hpc rfl rfl rfl rfl)⟩
  | prepared r idx roles hpc =>
      rw [hpc] at hshown
      generalize hpc' : lst.handshake h = p at hshown
      cases hshown
      exact ⟨lst, .refl lst, moves hl ha hb' ha' {} {} rfl (hstay hpc') (.setup r roles)
        (hl.slots.same {} (hfills hpc rfl rfl)) hl.places.lock (hmembers hpc rfl rfl rfl rfl)⟩
  | setupTcp r idx roles hpc =>
      rw [hpc] at hok hshown
      generalize hpc' : lst.handshake h = p at hshown
      cases hshown
      have hclosed : { eng.conn r.slot with closed := false } = eng.conn r.slot := by
        rw [← hok.2.2.2.closed]
      replace hnext := hnext true
      simp only [ListRun.handshakeStep, hpc', if_true] at hnext
      exact ⟨_, .single hnext, moves hl ha hb' ha' {} {} rfl rfl (.lock r roles)
        (hl.slots.filled ha hpc hok.1 (by rw [← hclosed]; rfl) rfl rfl rfl rfl rfl rfl rfl)
        hl.places.lock (hmembers hpc rfl rfl rfl rfl)⟩
  | setupUdp r idx roles hpc he => cases he
  | setupFailed r idx roles hpc =>
      rw [hpc] at hok hshown
      generalize hpc' : lst.handshake h = p at hshown
      cases hshown
      replace hnext := hnext false
      simp only [ListRun.handshakeStep, hpc', Bool.false_eq_true, if_false] at hnext
      exact ⟨_, .single hnext, moves hl ha hb' ha' {} {} rfl rfl (.unref r .call)
        (hl.slots.filled ha hpc hok.1 (Function.update_eq_self r.slot eng.conn).symm rfl rfl rfl rfl
          rfl rfl rfl)
        hl.places.lock (hmembers hpc rfl rfl rfl rfl)⟩
  | lock r idx roles hpc hfree =>
      rw [hpc] at hshown
      generalize hpc' : lst.handshake h = p at hshown
      cases hshown
      have hlist := hl.places.members
      rw [enlisting_eq_nil (by simp [hfree]), List.nil_append] at hlist
      replace hnext := hnext true
      simp only [ListRun.handshakeStep, hpc', hl.places.lock.trans hfree, if_true] at hnext
      refine ⟨_, .single hnext, moves hl ha hb' ha' {} {} rfl rfl (.locked r roles)
        (hl.slots.same {} (hfills hpc rfl rfl))
        (Function.update_self me (some (Agent.handshake h)) eng.listLock).symm ?_⟩
      simp [ListRun.listAddLocked, ListRun.setHandshake, EpollEngine.enlisting, HandshakePc.enlists,
        EpollEngine.setHandshake, EpollEngine.setLock, hlist]
  | refuse r idx roles hpc hstopping =>
      rw [hpc] at hshown
      generalize lst.handshake h = p at hshown
      cases hshown
      cases hl.places.stopping.symm.trans hstopping
  | enlist r idx roles hpc =>
      rw [hpc] at hok hshown
      generalize hpc' : lst.handshake h = p at hshown
      cases hshown
      have hlock := hok.2.2.2.2
      have hlist := hl.places.members
      rw [enlisting_of_lock hlock, hpc] at hlist
      refine ⟨lst, .refl lst, moves hl ha hb' ha'
        { lists := fun v hv => Function.update_of_ne hv .. } {} rfl (hstay hpc') (.add r roles)
        (hl.slots.same {} (hfills hpc rfl rfl)) hl.places.lock ?_⟩
      rw [hlist]
      simp [EpollEngine.enlisting, EpollEngine.setHandshake, EpollEngine.setList, HandshakePc.enlists,
        hlock]
  | add r idx role roles hpc =>
      rw [hpc] at hshown
      generalize hpc' : lst.handshake h = p at hshown
      cases hshown
      exact ⟨lst, .refl lst, moves hl ha hb' ha' {} {} rfl (hstay hpc') (.add r roles)
        (hl.slots.same {} (hfills hpc rfl rfl)) hl.places.lock (hmembers hpc rfl rfl rfl rfl)⟩
  | addFailed r idx role roles hpc =>
      rw [hpc] at hok hshown
      generalize hpc' : lst.handshake h = p at hshown
      cases hshown
      obtain ⟨hown, -, -, hlock⟩ := hok
      have hconn : lst.conn r.slot = eng.conn r.slot :=
        hl.slots.conn_eq ha (not_mem_free hb (by simp [hown])) (by simp [hown])
      have hlist := hl.places.members
      rw [enlisting_of_lock hlock, hpc] at hlist
      replace hnext := hnext false
      simp only [ListRun.handshakeStep, hpc', Bool.false_eq_true, if_false] at hnext
      refine ⟨_, .single hnext, moves hl ha hb' ha'
        { lists := fun v hv => Function.update_of_ne hv .. } {} rfl rfl (.rollback r)
        (hl.slots.touch rfl rfl rfl (hfills hpc rfl rfl) (fun i q l hi hq => ?_)
          (by rw [← hconn]; rfl) rfl rfl) hl.places.lock ?_⟩
      · have hthread := fill_own ha hi
        rw [hq, hown] at hthread
        cases hthread
      · simp [EpollEngine.enlisting, EpollEngine.setHandshake, EpollEngine.setList,
          EpollEngine.setConn, ListRun.setHandshake, ListRun.close, ListRun.listRemoveLocked,
          ListRun.setConn, HandshakePc.enlists, hlock, hlist]
  | added r idx hpc =>
      rw [hpc] at hok hshown
      generalize hpc' : lst.handshake h = p at hshown
      cases hshown
      have hlist := hl.places.members
      rw [enlisting_of_lock hok.2.2.2, hpc] at hlist
      replace hnext := hnext true
      simp only [ListRun.handshakeStep, hpc', if_true] at hnext
      refine ⟨_, .single hnext, moves hl ha hb' ha' {} {} rfl rfl (.stamp r)
        (hl.slots.same {} (hfills hpc rfl rfl)) (Function.update_self me none eng.listLock).symm ?_⟩
      rw [enlisting_eq_nil (by simp [EpollEngine.setHandshake, EpollEngine.setLock])]
      exact hlist
  | rollback r idx hpc =>
      rw [hpc] at hok hshown
      generalize hpc' : lst.handshake h = p at hshown
      cases hshown
      have hlist := hl.places.members
      rw [enlisting_of_lock hok.2.2.2.2, hpc] at hlist
      replace hnext := hnext true
      simp only [ListRun.handshakeStep, hpc'] at hnext
      refine ⟨_, .single hnext, moves hl ha hb' ha' {} {} rfl rfl (.unref r .call)
        (hl.slots.same {} (hfills hpc rfl rfl)) (Function.update_self me none eng.listLock).symm ?_⟩
      rw [enlisting_eq_nil (by simp [EpollEngine.setHandshake, EpollEngine.setLock])]
      exact hlist
  | stamp r hpc =>
      rw [hpc] at hshown
      generalize hpc' : lst.handshake h = p at hshown
      cases hshown
      exact ⟨lst, .refl lst, moves hl ha hb' ha' {} {} rfl (hstay hpc') (.register r)
        (hl.slots.same {} (hfills hpc rfl rfl)) hl.places.lock (hmembers hpc rfl rfl rfl rfl)⟩
  | register r hpc =>
      rw [hpc] at hok hshown hcond
      generalize hpc' : lst.handshake h = p at hshown
      cases hshown
      have hsettled := hok.2 hcond
      have hthread : ∀ i, own r.slot ≠ .thread i := by
        intro i hi
        rcases hsettled with ⟨w, hw⟩ | ⟨-, hw⟩
        · cases hi.symm.trans hw
        · exact hw i (.inl hi)
      have hfree : r.slot ∉ eng.freeSlots := by
        intro hmem
        obtain ⟨holder, howned⟩ := hinv.owned
        have hthreads := howned.threads h
        rw [hpc'] at hthreads
        have hholder := howned.base.free.2 r.slot (hl.slots.freeSlots ▸ hmem)
        cases hholder.symm.trans hthreads.1
      have hconn := hl.slots.conn_eq ha hfree hthread
      replace hnext := hnext true
      simp only [ListRun.handshakeStep, hpc'] at hnext
      exact ⟨_, .single hnext, moves hl ha hb' ha' {} {} rfl rfl .idle
        (hl.slots.touch rfl rfl rfl (hfills hpc rfl rfl)
          (fun i q l hi hq => hthread i (hq ▸ fill_own ha hi)) (by rw [← hconn]; rfl) rfl rfl)
        hl.places.lock (hmembers hpc rfl rfl rfl rfl)⟩
  | unref r u st₁ u' hpc hunref =>
      rw [hpc] at hshown
      generalize hpc' : lst.handshake h = p at hshown
      cases hshown
      exact hl.threadUnref hinv hb ha hb' ha' hpc hpc' hunref (.unref r u') ⟨rfl, rfl⟩
  | finalized r u st₁ hpc hunref =>
      rw [hpc] at hshown
      generalize hpc' : lst.handshake h = p at hshown
      cases hshown
      exact hl.threadUnref hinv hb ha hb' ha' hpc hpc' hunref .idle ⟨rfl, rfl⟩

end Threads

end FiveGProxy
