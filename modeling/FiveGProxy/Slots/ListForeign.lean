import FiveGProxy.Slots.EngineList

/-!
# What the list takes from other workers

A store of another worker, or of a thread that works for it, is a `touch` in the list of worker `me`,
and the slot it pushes onto the stack is a `give`; what it does to its own list and bucket is not seen
there. The slots that it has in hands are foreign all the time.
-/

namespace FiveGProxy

open Steps

variable {me : ℕ} {own own' : ℕ → Owner} {eng eng' : EpollEngine} {lst lst' : ListRun}
  {h i v s : ℕ} {r : Ref} {c : Conn}

/-! ### Slots in and out of hands -/

/-- Only a connection on its list passes the check of an event for worker `me`. -/
theorem Base.passes_mem (hb : Base .tcp own eng) (hpass : ListRun.Passes me (eng.conn s)) :
    s ∈ eng.connList me := by
  obtain ⟨v, hown⟩ := hb.passes_listed hpass
  have hwidx := (Engine.checkSlot_process hpass).2.2.2.1 rfl
  have hslot := hb.slots s
  rw [hown] at hslot
  have hv : v = me := hslot.2.2.symm.trans hwidx
  exact ((hb.lists me).2 s).mpr (by simp [hown, hv])

theorem workerHas_not_mem (hb : Base .tcp own eng) (ha : ∀ a, AgentOk .tcp own eng a) (hv : v ≠ me)
    (hhas : eng.WorkerHas v s) : s ∉ eng.connList me ∧ s ∉ eng.freeSlots := by
  rcases workerHas_own hb ha hhas with hown | hown | hown
  · refine ⟨fun hmem => hv (hown.unique (((hb.lists me).2 s).mp hmem)), not_mem_free hb ?_⟩
    intro hfree
    simp [hfree] at hown
  · refine ⟨fun hmem => ?_, not_mem_free hb (by simp [hown])⟩
    have hin := ((hb.lists me).2 s).mp hmem
    simp [hown] at hin
  · refine ⟨fun hmem => ?_, not_mem_free hb (by simp [hown])⟩
    have hin := ((hb.lists me).2 s).mp hmem
    simp [hown] at hin

theorem ShowsSlots.conn_eq (hs : ShowsSlots me eng lst) (ha : ∀ a, AgentOk .tcp own eng a)
    (hfree : s ∉ eng.freeSlots) (hown : ∀ i, own s ≠ .thread i) : lst.conn s = eng.conn s := by
  refine hs.conn s hfree fun i r todo hfill hrs => hown i ?_
  rw [← hrs]
  exact fill_own ha hfill

/-- What a thread fills in for `me` is not foreign. -/
theorem ShowsPlaces.fill_ne (hp : ShowsPlaces me eng lst) (hinv : ListInv me lst)
    (hforeign : lst.foreign s = true) {todo : List Store}
    (hfill : (eng.handshake i).fill me = some (r, todo)) : r.slot ≠ s := by
  rintro rfl
  obtain ⟨holder, howned⟩ := hinv.owned
  have hthread := howned.threads i
  have hfar := howned.base.foreign _ hforeign
  rcases hp.threads i with hshown | ⟨-, habroad⟩
  · generalize eng.handshake i = pc at hshown hfill
    generalize lst.handshake i = pc' at hshown hthread
    cases hshown
    case prepare =>
      simp only [HandshakePc.fill, if_true] at hfill
      cases hfill
      cases hfar.symm.trans hthread.1
    case setup =>
      simp only [HandshakePc.fill, if_true] at hfill
      cases hfill
      cases hfar.symm.trans hthread.1
    all_goals cases hfill
  · refine habroad.1 ?_
    cases hpc : eng.handshake i <;> rw [hpc] at hfill
    case prepare =>
      simp only [HandshakePc.fill] at hfill
      split at hfill
      case isTrue hidx => exact congrArg some hidx
      case isFalse => cases hfill
    case setup =>
      simp only [HandshakePc.fill] at hfill
      split at hfill
      case isTrue hidx => exact congrArg some hidx
      case isFalse => cases hfill
    all_goals cases hfill

/-! ### What the others have in hands -/

/-- Nobody has got hold of a slot that is not foreign, or comes to share the one he has. -/
structure ListFrame (me : ℕ) (eng eng' : EpollEngine) (lst lst' : ListRun) : Prop where
  tenancy : ∀ s, eng.tenancy s ≤ eng'.tenancy s
  freed : ∀ s ∈ eng.freeSlots, s ∈ eng'.freeSlots ∨ eng.tenancy s < eng'.tenancy s
  foreign : ∀ s, lst.foreign s = true → lst'.foreign s = true ∨ s ∈ eng'.freeSlots
  workers : ∀ v, v ≠ me → ∀ s, eng'.WorkerHas v s → eng.WorkerHas v s ∨ lst'.foreign s = true

theorem Abroad.frame {pc : HandshakePc} (habroad : Abroad me eng lst pc)
    (hle : ∀ r, pc.ref = some r → r.tenancy ≤ eng.tenancy r.slot)
    (hframe : ListFrame me eng eng' lst lst') : Abroad me eng' lst' pc := by
  refine ⟨habroad.1, fun r href hcur hnot => ?_⟩
  have hten : eng.tenancy r.slot = r.tenancy :=
    Nat.le_antisymm (hcur ▸ hframe.tenancy r.slot) (hle r href)
  have hbefore : r.slot ∉ eng.freeSlots := by
    intro hmem
    rcases hframe.freed r.slot hmem with hmem' | hlt
    · exact hnot hmem'
    · exact absurd hcur (by omega)
  exact (hframe.foreign r.slot (habroad.2 r href hten hbefore)).resolve_right hnot

namespace ShowsPlaces

theorem thread_frame (hp : ShowsPlaces me eng lst) (ha : ∀ a, AgentOk .tcp own eng a)
    (hframe : ListFrame me eng eng' lst lst') (heng : eng'.handshake i = eng.handshake i)
    (hlst : lst'.handshake i = lst.handshake i) :
    ThreadShown me (eng'.handshake i) (lst'.handshake i) ∨
      lst'.handshake i = .idle ∧ Abroad me eng' lst' (eng'.handshake i) := by
  rw [heng, hlst]
  refine (hp.threads i).imp_right fun hab => ⟨hab.1, hab.2.frame (fun r href => ?_) hframe⟩
  exact ref_tenancy_le (ha (.handshake i)) href

theorem workers_frame (hp : ShowsPlaces me eng lst) (hb' : Base .tcp own' eng')
    (ha' : ∀ a, AgentOk .tcp own' eng' a) (hframe : ListFrame me eng eng' lst lst') :
    ∀ v, v ≠ me → ∀ s, eng'.WorkerHas v s → lst'.foreign s = true := by
  intro v hv s hhas
  rcases hframe.workers v hv s hhas with hbefore | hforeign
  · exact (hframe.foreign s (hp.workers v hv s hbefore)).resolve_right
      (workerHas_not_mem hb' ha' hv hhas).2
  · exact hforeign

/-- A step of thread `h`. -/
theorem thread (hp : ShowsPlaces me eng lst) (ha : ∀ a, AgentOk .tcp own eng a)
    (hb' : Base .tcp own' eng') (ha' : ∀ a, AgentOk .tcp own' eng' a) {pc : HandshakePc}
    (hframe : ListFrame me eng eng' lst lst')
    (hhandshake : eng'.handshake = Function.update eng.handshake h pc)
    (hothers : ∀ i, i ≠ h → lst'.handshake i = lst.handshake i)
    (hself : ThreadShown me pc (lst'.handshake h) ∨
      lst'.handshake h = .idle ∧ Abroad me eng' lst' pc)
    (hworker : eng'.worker = eng.worker) (hgarbage : eng'.garbage = eng.garbage)
    (hstopping : eng'.stopping = eng.stopping) (hworker' : lst'.worker = lst.worker)
    (hgarbage' : lst'.garbage = lst.garbage) (hlock : lst'.listLock = eng'.listLock me)
    (hmembers : lst'.members = eng'.enlisting me ++ eng'.connList me) : ShowsPlaces me eng' lst' where
  lock := hlock
  members := hmembers
  stopping := by rw [hstopping, hp.stopping]
  worker := by
    rw [hworker, hgarbage, hworker', hgarbage']
    exact hp.worker
  threads i := by
    by_cases hi : i = h
    · rw [hhandshake, hi, Function.update_self]
      exact hself
    · exact hp.thread_frame ha hframe (by rw [hhandshake, Function.update_of_ne hi]) (hothers i hi)
  workers := hp.workers_frame hb' ha' hframe

/-- A step of a worker. -/
theorem workerStep (hp : ShowsPlaces me eng lst) (ha : ∀ a, AgentOk .tcp own eng a)
    (hb' : Base .tcp own' eng') (ha' : ∀ a, AgentOk .tcp own' eng' a)
    (hframe : ListFrame me eng eng' lst lst') (hhandshake : eng'.handshake = eng.handshake)
    (hhandshake' : lst'.handshake = lst.handshake) (hstopping : eng'.stopping me = eng.stopping me)
    (hworker : WorkerShown (eng'.worker me) (eng'.garbage me) lst'.worker lst'.garbage)
    (hlock : lst'.listLock = eng'.listLock me)
    (hmembers : lst'.members = eng'.enlisting me ++ eng'.connList me) : ShowsPlaces me eng' lst' where
  lock := hlock
  members := hmembers
  stopping := by rw [hstopping, hp.stopping]
  worker := hworker
  threads i := hp.thread_frame ha hframe (congrFun hhandshake i) (congrFun hhandshake' i)
  workers := hp.workers_frame hb' ha' hframe

end ShowsPlaces

/-! ### Whose turn it is to be put on the list -/

theorem enlisting_congr (hlock : eng'.listLock me = eng.listLock me)
    (hthreads : ∀ i, (eng'.handshake i).enlists me = (eng.handshake i).enlists me) :
    eng'.enlisting me = eng.enlisting me := by
  unfold EpollEngine.enlisting
  rw [hlock]
  split <;> simp only [hthreads]

theorem enlisting_eq_nil (hlock : ∀ i, eng.listLock me ≠ some (.handshake i)) :
    eng.enlisting me = [] := by
  unfold EpollEngine.enlisting
  split
  case h_1 i hi => exact absurd hi (hlock i)
  all_goals rfl

theorem enlisting_of_lock (hlock : eng.listLock me = some (.handshake h)) :
    eng.enlisting me = ((eng.handshake h).enlists me).toList := by
  simp only [EpollEngine.enlisting, hlock]

/-! ### Slots of other workers -/

/-- The list and its threads are as before. -/
structure SameList (lst lst' : ListRun) : Prop where
  listLock : lst'.listLock = lst.listLock
  members : lst'.members = lst.members
  worker : lst'.worker = lst.worker
  garbage : lst'.garbage = lst.garbage
  handshake : lst'.handshake = lst.handshake

theorem SameList.rfl : SameList lst lst := ⟨Eq.refl _, Eq.refl _, Eq.refl _, Eq.refl _, Eq.refl _⟩

theorem ShowsList.foreign_not_mem (hl : ShowsList me eng lst) (hinv : ListInv me lst)
    (hforeign : lst.foreign s = true) : s ∉ eng.connList me := by
  intro hmem
  obtain ⟨holder, howned⟩ := hinv.owned
  have hlinked := (howned.base.members s).mp (by
    rw [hl.places.members]
    exact List.mem_append_right _ hmem)
  simp [howned.base.foreign s hforeign] at hlinked

/-- What a step of another worker, or of a thread for it, does to the slots. -/
inductive AwayMove (eng eng' : EpollEngine) (lst : ListRun) : Prop
  | same (hconn : eng'.conn = eng.conn) (hfree : eng'.freeSlots = eng.freeSlots)
  | store (t : ℕ) (d : Conn) (hforeign : lst.foreign t = true)
      (hconn : eng'.conn = Function.update eng.conn t d) (hfree : eng'.freeSlots = eng.freeSlots)
  /-- `registered` is set on a slot that is free again. -/
  | late (t : ℕ) (d : Conn) (hmem : t ∈ eng.freeSlots) (hgen : d.gen = (eng.conn t).gen)
      (hconn : eng'.conn = Function.update eng.conn t d) (hfree : eng'.freeSlots = eng.freeSlots)
  | push (t : ℕ) (hforeign : lst.foreign t = true) (hnot : t ∉ eng.freeSlots)
      (hstate : (eng.conn t).slotState = false) (hconn : eng'.conn = eng.conn)
      (hfree : eng'.freeSlots = t :: eng.freeSlots)

theorem AwayMove.freeSlots_subset (hmove : AwayMove eng eng' lst) :
    eng.freeSlots ⊆ eng'.freeSlots := by
  cases hmove with
  | same hconn hfree | store s c hforeign hconn hfree | late s c hmem hgen hconn hfree =>
      exact hfree ▸ List.Subset.refl _
  | push s hforeign hnot hstate hconn hfree => exact hfree ▸ List.subset_cons_self s _

/-- The list follows it with a `touch` or a `give`. -/
theorem ShowsList.awayMove (hl : ShowsList me eng lst) (hinv : ListInv me lst)
    (hb : Base .tcp own eng) (ha : ∀ a, AgentOk .tcp own eng a) (hb' : Base .tcp own' eng')
    (hmove : AwayMove eng eng' lst) (htenancy : eng'.tenancy = eng.tenancy)
    (hlist : eng'.connList me = eng.connList me)
    (hfill : ∀ i, (eng'.handshake i).fill me = (eng.handshake i).fill me) :
    ∃ lst', Reaches (listStep me) lst lst' ∧ ShowsSlots me eng' lst' ∧ SameList lst lst' ∧
      ∀ t, lst.foreign t = true → lst'.foreign t = true ∨ t ∈ eng'.freeSlots := by
  cases hmove with
  | same hconn hfree =>
      have hslots := hl.slots.same ⟨hconn, htenancy, hfree, rfl, rfl, rfl⟩ hfill
      exact ⟨lst, .refl lst, hslots, .rfl, fun _ => .inl⟩
  | store s c hforeign hconn hfree =>
      have hpass : ¬ListRun.Passes me c := by
        intro hpass
        refine hl.foreign_not_mem hinv hforeign (hlist ▸ hb'.passes_mem ?_)
        rwa [hconn, Function.update_self]
      refine ⟨_, .single (a := .touch s c none none) (if_pos ⟨hforeign, hpass⟩), ?_,
        ⟨rfl, rfl, rfl, rfl, rfl⟩, fun _ => .inl⟩
      exact hl.slots.touch hconn htenancy hfree hfill
        (fun i r todo hi => hl.places.fill_ne hinv hforeign hi) rfl rfl rfl
  | late s c hmem hgen hconn hfree =>
      refine ⟨lst, .refl lst, hl.slots.late hconn htenancy hfree hgen hmem hfill ?_, .rfl,
        fun _ => .inl⟩
      rintro i r todo hi rfl
      exact not_mem_free hb (by simp [fill_own ha hi]) hmem
  | push s hforeign hnot hstate hconn hfree =>
      have hslot : lst.conn s = eng.conn s :=
        hl.slots.conn s hnot fun i r todo hi => hl.places.fill_ne hinv hforeign hi
      refine ⟨_, .single (a := .give s) (if_pos ⟨hforeign, hslot ▸ hstate⟩),
        hl.slots.push hslot hconn htenancy hfree hfill rfl rfl rfl, ⟨rfl, rfl, rfl, rfl, rfl⟩,
        fun t ht => ?_⟩
      by_cases hts : t = s
      · rw [hfree, hts]
        exact .inr List.mem_cons_self
      · exact .inl ((Function.update_of_ne hts _ _).trans ht)

theorem Unrefs.own_ne_free {a : Agent} {u : UnrefPc} (hunref : Unrefs .tcp own eng a r u) :
    own r.slot ≠ .free := by
  cases u with
  | call => exact hunref.own ▸ a.holder_ne_free
  | exchange | poison | release | push t => simp [hunref.1]

theorem Unrefs.tenancy {a : Agent} {u : UnrefPc} (hunref : Unrefs .tcp own eng a r u) :
    eng.tenancy r.slot = r.tenancy := by
  cases u with
  | call => exact Holds.tenancy hunref
  | exchange | poison | release | push t => exact hunref.2.2.1

theorem unrefStep_awayMove {a : Agent} {u : UnrefPc} {u' : Option UnrefPc} {eng₁ : EpollEngine}
    (hb : Base .tcp own eng) (hunref : Unrefs .tcp own eng a r u)
    (hforeign : lst.foreign r.slot = true) (hstep : eng.unrefStep r u = some (eng₁, u'))
    (hconn : eng'.conn = eng₁.conn) (hfree : eng'.freeSlots = eng₁.freeSlots) :
    AwayMove eng eng' lst := by
  cases u with
  | call | exchange =>
      obtain ⟨rfl, -⟩ := Prod.mk.inj (Option.some.inj hstep)
      exact .store r.slot _ hforeign hconn hfree
  | poison =>
      simp only [EpollEngine.unrefStep] at hstep
      split at hstep
      case isTrue =>
        obtain ⟨rfl, -⟩ := Prod.mk.inj (Option.some.inj hstep)
        exact .store r.slot _ hforeign hconn hfree
      case isFalse => cases hstep
  | release =>
      have hslot := hb.slots r.slot
      rw [hunref.1] at hslot
      simp only [EpollEngine.unrefStep, hslot.2.1] at hstep
      obtain ⟨rfl, -⟩ := Prod.mk.inj (Option.some.inj hstep)
      exact .store r.slot _ hforeign hconn hfree
  | push t =>
      obtain ⟨rfl, hstate⟩ := hunref.2.2.2 t rfl
      obtain ⟨rfl, -⟩ := Prod.mk.inj (Option.some.inj hstep)
      exact .push r.slot hforeign (not_mem_free hb (by simp [hunref.1])) hstate hconn hfree

/-! ### Threads of other workers -/

section Abroad

variable {pc' : HandshakePc}

/-- Thread `h` has only what it had in hands before. -/
structure HandshakePc.Follows (pc pc' : HandshakePc) : Prop where
  idx : ∀ i, pc'.idx = some i → pc.idx = some i
  ref : ∀ r, pc'.ref = some r → pc.ref = some r

theorem Abroad.follow {pc : HandshakePc} (habroad : Abroad me eng lst pc) (hnext : pc.Follows pc') :
    Abroad me eng lst pc' :=
  ⟨fun hidx => habroad.1 (hnext.idx me hidx), fun r href => habroad.2 r (hnext.ref r href)⟩

theorem HandshakePc.enlists_eq_none {pc : HandshakePc} (hidx : pc.idx ≠ some me) :
    pc.enlists me = none := by
  cases pc with
  | locked r idx roles => exact if_neg fun h => hidx (congrArg some h)
  | idle | prepare | setup | lock | add | rollback | stamp | register | unref => rfl

theorem HandshakePc.fill_eq_none {pc : HandshakePc} (hidx : pc.idx ≠ some me) :
    pc.fill me = none := by
  cases pc with
  | prepare r idx roles todo => exact if_neg fun h => hidx (congrArg some h)
  | setup r idx roles => exact if_neg fun h => hidx (congrArg some h)
  | idle | locked | lock | add | rollback | stamp | register | unref => rfl

/-- A step of a thread that works for another worker. -/
theorem ShowsList.abroad (hl : ShowsList me eng lst) (hinv : ListInv me lst)
    (hb : Base .tcp own eng) (ha : ∀ a, AgentOk .tcp own eng a) (hb' : Base .tcp own' eng')
    (ha' : ∀ a, AgentOk .tcp own' eng' a) (hidle : lst.handshake h = .idle)
    (habroad : Abroad me eng lst (eng.handshake h)) (hnext : (eng.handshake h).Follows pc')
    (hhandshake : eng'.handshake = Function.update eng.handshake h pc')
    (hworker : eng'.worker = eng.worker) (hgarbage : eng'.garbage = eng.garbage)
    (hstopping : eng'.stopping = eng.stopping) (hlock : eng'.listLock me = eng.listLock me)
    (hlist : eng'.connList me = eng.connList me)
    (hlists : ∀ w t, t ∈ eng'.connList w → t ∈ eng.connList w ∨ lst.foreign t = true)
    (htenancy : eng'.tenancy = eng.tenancy) (hmove : AwayMove eng eng' lst) :
    ∃ lst', Reaches (listStep me) lst lst' ∧ ShowsList me eng' lst' := by
  have hidx' : pc'.idx ≠ some me := fun hidx => habroad.1 (hnext.idx me hidx)
  have hfill : ∀ i, (eng'.handshake i).fill me = (eng.handshake i).fill me := by
    intro i
    rw [hhandshake]
    by_cases hi : i = h
    · rw [hi, Function.update_self, HandshakePc.fill_eq_none hidx',
        HandshakePc.fill_eq_none habroad.1]
    · rw [Function.update_of_ne hi]
  obtain ⟨lst', hreach, hslots', hsame, hforeign⟩ :=
    hl.awayMove hinv hb ha hb' hmove htenancy hlist hfill
  have hframe : ListFrame me eng eng' lst lst' := by
    refine ⟨fun t => Nat.le_of_eq (by rw [htenancy]),
      fun t ht => .inl (hmove.freeSlots_subset ht), hforeign, fun w hw t hhas => ?_⟩
    have hnot := (workerHas_not_mem hb' ha' hw hhas).2
    rcases hhas with hmem | hmem
    · exact (hlists w t hmem).imp .inl fun hf => (hforeign t hf).resolve_right hnot
    · exact .inl (.inr (by rwa [hworker, hgarbage] at hmem))
  refine ⟨lst', hreach, hslots', hl.places.thread ha hb' ha' hframe hhandshake
    (fun i _ => congrFun hsame.handshake i) (.inr ⟨?_, ?_⟩) hworker hgarbage hstopping hsame.worker
    hsame.garbage ?_ ?_⟩
  · rw [hsame.handshake, hidle]
  · refine (habroad.follow hnext).frame (fun r href => ?_) hframe
    exact ref_tenancy_le (ha (.handshake h)) (hnext.ref r href)
  · rw [hsame.listLock, hl.places.lock, hlock]
  · have henlisting : eng'.enlisting me = eng.enlisting me := by
      refine enlisting_congr hlock fun i => ?_
      rw [hhandshake]
      by_cases hi : i = h
      · rw [hi, Function.update_self, HandshakePc.enlists_eq_none hidx',
          HandshakePc.enlists_eq_none habroad.1]
      · rw [Function.update_of_ne hi]
    rw [hsame.members, hl.places.members, henlisting, hlist]

/-- A step of a thread that works for another worker is a store into a slot of it at most. -/
theorem ShowsList.abroadStep (hl : ShowsList me eng lst) (hinv : ListInv me lst)
    (hb : Base .tcp own eng) (ha : ∀ a, AgentOk .tcp own eng a) (hb' : Base .tcp own' eng')
    (ha' : ∀ a, AgentOk .tcp own' eng' a) (hidle : lst.handshake h = .idle)
    (habroad : Abroad me eng lst (eng.handshake h))
    (hcond : HandshakeActsOnOwn eng (eng.handshake h)) {ok : Bool}
    (hstep : eng.handshakeStep .tcp h ok = some eng') :
    ∃ lst', Reaches (listStep me) lst lst' ∧ ShowsList me eng' lst' := by
  have hok : HandshakeOk .tcp own eng h (eng.handshake h) := ha (.handshake h)
  have hkeep : ∀ w t, t ∈ eng.connList w → t ∈ eng.connList w ∨ lst.foreign t = true :=
    fun _ _ => .inl
  -- the slot that the thread has in hands is foreign
  have hforeign : ∀ {pc r}, eng.handshake h = pc → pc.ref = some r → own r.slot ≠ .free →
      eng.tenancy r.slot = r.tenancy → lst.foreign r.slot = true :=
    fun hpc href hown hcur => habroad.2 _ (hpc ▸ href) hcur (not_mem_free hb hown)
  have hidx : ∀ {pc idx}, eng.handshake h = pc → pc.idx = some idx → me ≠ idx := by
    rintro pc idx hpc hpidx rfl
    exact habroad.1 (hpc ▸ hpidx)
  have moves : ∀ {pc pc' : HandshakePc}, eng.handshake h = pc →
      eng'.handshake = Function.update eng.handshake h pc' →
      (∀ i, pc'.idx = some i → pc.idx = some i) → (∀ r, pc'.ref = some r → pc.ref = some r) →
      eng'.worker = eng.worker →
      eng'.garbage = eng.garbage → eng'.stopping = eng.stopping →
      eng'.listLock me = eng.listLock me → eng'.connList me = eng.connList me →
      (∀ w t, t ∈ eng'.connList w → t ∈ eng.connList w ∨ lst.foreign t = true) →
      eng'.tenancy = eng.tenancy → AwayMove eng eng' lst →
      ∃ lst', Reaches (listStep me) lst lst' ∧ ShowsList me eng' lst' := by
    intro pc pc' hpc hhandshake hidx href
    exact hl.abroad hinv hb ha hb' ha' hidle habroad (hpc ▸ ⟨hidx, href⟩) hhandshake
  have hnone : ∀ {α : Type} {o : Option α} (x), none = some x → o = some x := by
    rintro _ _ _ ⟨⟩
  cases EpollEngine.handshake_transition hstep with
  | store r idx roles x todo hpc =>
      rw [hpc] at hok
      have hr := hforeign hpc rfl (by simp [hok.1]) hok.2.1
      exact moves hpc rfl (fun _ => id) (fun _ => id) rfl rfl rfl rfl rfl hkeep rfl
        (.store r.slot _ hr rfl rfl)
  | prepared r idx roles hpc =>
      exact moves hpc rfl (fun _ => id) (fun _ => id) rfl rfl rfl rfl rfl hkeep rfl (.same rfl rfl)
  | setupTcp r idx roles hpc =>
      rw [hpc] at hok
      have hr := hforeign hpc rfl (by simp [hok.1]) hok.2.1
      exact moves hpc rfl (fun _ => id) (fun _ => id) rfl rfl rfl rfl rfl hkeep rfl
        (.store r.slot _ hr rfl rfl)
  | setupUdp r idx roles hpc he => cases he
  | setupFailed r idx roles hpc =>
      exact moves hpc rfl hnone (fun _ => id) rfl rfl rfl rfl rfl hkeep rfl (.same rfl rfl)
  | lock r idx roles hpc =>
      exact moves hpc rfl (fun _ => id) (fun _ => id) rfl rfl rfl
        (Function.update_of_ne (hidx hpc rfl) ..) rfl hkeep rfl (.same rfl rfl)
  | refuse r idx roles hpc | rollback r idx hpc =>
      exact moves hpc rfl hnone (fun _ => id) rfl rfl rfl
        (Function.update_of_ne (hidx hpc rfl) ..) rfl hkeep rfl (.same rfl rfl)
  | enlist r idx roles hpc =>
      rw [hpc] at hok
      have hr := hforeign hpc rfl (by simp [hok.1]) hok.2.1
      refine moves hpc rfl (fun _ => id) (fun _ => id) rfl rfl rfl rfl
        (Function.update_of_ne (hidx hpc rfl) ..) (fun w t ht => ?_) rfl (.same rfl rfl)
      by_cases hw : w = idx
      · subst hw
        replace ht := (congrArg (t ∈ ·) (Function.update_self w _ eng.connList)).mp ht
        rcases List.mem_cons.mp ht with rfl | ht
        · exact .inr hr
        · exact .inl ht
      · exact .inl ((congrArg (t ∈ ·) (Function.update_of_ne hw _ eng.connList)).mp ht)
  | add r idx role roles hpc =>
      exact moves hpc rfl (fun _ => id) (fun _ => id) rfl rfl rfl rfl rfl hkeep rfl (.same rfl rfl)
  | addFailed r idx role roles hpc =>
      rw [hpc] at hok
      have hr := hforeign hpc rfl (by simp [hok.1]) hok.2.1
      refine moves hpc rfl (fun _ => id) (fun _ => id) rfl rfl rfl rfl
        (Function.update_of_ne (hidx hpc rfl) ..) (fun w t ht => .inl ?_) rfl
        (.store r.slot _ hr rfl rfl)
      by_cases hw : w = idx
      · subst hw
        replace ht := (congrArg (t ∈ ·) (Function.update_self w _ eng.connList)).mp ht
        exact List.mem_of_mem_erase ht
      · exact (congrArg (t ∈ ·) (Function.update_of_ne hw _ eng.connList)).mp ht
  | added r idx hpc =>
      exact moves hpc rfl hnone (fun _ => id) rfl rfl rfl
        (Function.update_of_ne (hidx hpc rfl) ..) rfl hkeep rfl (.same rfl rfl)
  | stamp r hpc =>
      exact moves hpc rfl hnone (fun _ => id) rfl rfl rfl rfl rfl hkeep rfl (.same rfl rfl)
  | register r hpc =>
      rw [hpc] at hcond
      refine moves hpc rfl hnone hnone rfl rfl rfl rfl rfl hkeep rfl ?_
      by_cases hfree : r.slot ∈ eng.freeSlots
      · exact .late r.slot { eng.conn r.slot with registered := true } hfree rfl rfl rfl
      · exact .store r.slot _ (habroad.2 r (by rw [hpc]; rfl) hcond hfree) rfl rfl
  | unref r u st₁ u' hpc hunref =>
      have hun := handshake_unrefs ha hpc
      obtain ⟨hlist, -⟩ := unrefStep_place hb hun hunref
      have hframe := EpollEngine.unref_frame hunref
      refine moves hpc (congrArg (Function.update · h _) hframe.handshake) (fun _ => id) (fun _ => id)
        hframe.worker hframe.garbage hframe.stopping (congrFun hframe.listLock me)
        (congrFun hlist me) (fun w t ht => .inl (hlist ▸ ht)) hframe.tenancy ?_
      exact unrefStep_awayMove hb hun (hforeign hpc rfl hun.own_ne_free hun.tenancy) hunref rfl rfl
  | finalized r u st₁ hpc hunref =>
      have hun := handshake_unrefs ha hpc
      obtain ⟨hlist, -⟩ := unrefStep_place hb hun hunref
      have hframe := EpollEngine.unref_frame hunref
      refine moves hpc (congrArg (Function.update · h _) hframe.handshake) hnone hnone
        hframe.worker hframe.garbage hframe.stopping (congrFun hframe.listLock me)
        (congrFun hlist me) (fun w t ht => .inl (hlist ▸ ht)) hframe.tenancy ?_
      exact unrefStep_awayMove hb hun (hforeign hpc rfl hun.own_ne_free hun.tenancy) hunref rfl rfl

end Abroad

/-! ### Other workers -/

/-- A step of another worker. -/
theorem ShowsList.away (hl : ShowsList me eng lst) (hinv : ListInv me lst)
    (hb : Base .tcp own eng) (ha : ∀ a, AgentOk .tcp own eng a) (hb' : Base .tcp own' eng')
    (ha' : ∀ a, AgentOk .tcp own' eng' a) (hv : v ≠ me) {pc pc' : WorkerPc} {g : List Ref}
    {l : List ℕ} (hpc : eng.worker v = pc) (hworker : eng'.worker = Function.update eng.worker v pc')
    (hgarbage : eng'.garbage = Function.update eng.garbage v g)
    (hlists : eng'.connList = Function.update eng.connList v l) (hsub : l ⊆ eng.connList v)
    (hcarried : ∀ q ∈ pc'.carried g, q ∈ pc.carried (eng.garbage v) ∨ q.slot ∈ eng.connList v)
    (hlock : eng'.listLock me = eng.listLock me) (hstopping : eng'.stopping me = eng.stopping me)
    (hhandshake : eng'.handshake = eng.handshake) (htenancy : eng'.tenancy = eng.tenancy)
    (hmove : AwayMove eng eng' lst) :
    ∃ lst', Reaches (listStep me) lst lst' ∧ ShowsList me eng' lst' := by
  have hlist : eng'.connList me = eng.connList me := by
    rw [hlists, Function.update_of_ne hv.symm]
  obtain ⟨lst', hreach, hslots, hsame, hforeign⟩ :=
    hl.awayMove hinv hb ha hb' hmove htenancy hlist fun i => by rw [hhandshake]
  have hhas : ∀ w t, eng'.WorkerHas w t → eng.WorkerHas w t := by
    intro w t hhas
    by_cases hw : w = v
    · subst hw
      rw [EpollEngine.WorkerHas, hlists, hworker, hgarbage, Function.update_self,
        Function.update_self, Function.update_self] at hhas
      rcases hhas with hmem | hmem
      · exact .inl (hsub hmem)
      · obtain ⟨q, hq, rfl⟩ := List.mem_map.mp hmem
        rcases hcarried q hq with hq' | hq'
        · exact .inr (List.mem_map_of_mem (hpc ▸ hq'))
        · exact .inl hq'
    · rwa [EpollEngine.WorkerHas, hlists, hworker, hgarbage, Function.update_of_ne hw,
        Function.update_of_ne hw, Function.update_of_ne hw] at hhas
  have hframe : ListFrame me eng eng' lst lst' :=
    ⟨fun t => Nat.le_of_eq (by rw [htenancy]), fun t ht => .inl (hmove.freeSlots_subset ht),
      hforeign, fun w _ t ht => .inl (hhas w t ht)⟩
  refine ⟨lst', hreach, hslots, hl.places.workerStep ha hb' ha' hframe hhandshake hsame.handshake
    hstopping ?_ ?_ ?_⟩
  · rw [hworker, hgarbage, Function.update_of_ne hv.symm, Function.update_of_ne hv.symm,
      hsame.worker, hsame.garbage]
    exact hl.places.worker
  · rw [hsame.listLock, hl.places.lock, hlock]
  · have henlisting : eng'.enlisting me = eng.enlisting me :=
      enlisting_congr hlock fun i => by rw [hhandshake]
    rw [hsame.members, hl.places.members, henlisting, hlist]

/-- A step of another worker closes or unreferences one of its own connections at most. -/
theorem ShowsList.awayStep (hl : ShowsList me eng lst) (hinv : ListInv me lst)
    (hb : Base .tcp own eng) (ha : ∀ a, AgentOk .tcp own eng a) (hb' : Base .tcp own' eng')
    (ha' : ∀ a, AgentOk .tcp own' eng' a) (hv : v ≠ me) {choice : Bool} {batch : List (BitVec 64)}
    (hcond : WorkerActsOnOwn .tcp eng v choice (eng.worker v))
    (hstep : eng.workerStep .tcp v choice batch = some eng') :
    ∃ lst', Reaches (listStep me) lst lst' ∧ ShowsList me eng' lst' := by
  have hok : WorkerOk .tcp own eng v (eng.worker v) (eng.garbage v) := ha (.worker v)
  have hgarbage : eng.garbage = Function.update eng.garbage v (eng.garbage v) :=
    (Function.update_eq_self v eng.garbage).symm
  have hlists : eng.connList = Function.update eng.connList v (eng.connList v) :=
    (Function.update_eq_self v eng.connList).symm
  have hsub : eng.connList v ⊆ eng.connList v := List.Subset.refl _
  have herase : ∀ s, (eng.connList v).erase s ⊆ eng.connList v := fun _ => List.erase_subset
  have hfar : ∀ {o}, Function.update eng.listLock v o me = eng.listLock me :=
    Function.update_of_ne hv.symm ..
  have hforeign : ∀ {s}, s ∈ eng.connList v → lst.foreign s = true :=
    fun hmem => hl.places.workers v hv _ (.inl hmem)
  have hserved : ∀ {s rest}, eng.worker v = .fatal s rest → s ∈ eng.connList v := by
    intro s rest hpc
    rw [hpc] at hok
    exact ((hb.lists v).2 s).mpr (.inl (hok.serving rfl s rfl).1)
  have hsame : ∀ {l : List Ref} (q), q ∈ l → q ∈ l ∨ q.slot ∈ eng.connList v := fun _ => .inl
  have hcollect : ∀ {l : List Ref} {s : ℕ}, s ∈ eng.connList v →
      ∀ q ∈ l ++ [eng.current s], q ∈ l ∨ q.slot ∈ eng.connList v := by
    intro l s hmem q hq
    rcases List.mem_append.mp hq with hq | hq
    · exact .inl hq
    · obtain rfl := List.mem_singleton.mp hq
      exact .inr hmem
  have hempty : ∀ {l : List Ref} (q), q ∈ ([] : List Ref) → q ∈ l ∨ q.slot ∈ eng.connList v := by
    rintro l q ⟨⟩
  have moves := @ShowsList.away me own own' eng eng' lst v hl hinv hb ha hb' ha' hv
  cases EpollEngine.worker_transition hstep with
  | running hpc =>
      exact moves hpc rfl rfl hlists hsub hempty rfl rfl rfl rfl (.same rfl rfl)
  | stopped hpc hstopped =>
      rw [hpc] at hcond
      refine moves hpc rfl hgarbage hlists hsub (fun q hq => ?_) rfl rfl rfl rfl (.same rfl rfl)
      rw [hcond hstopped] at hq
      exact hempty q hq
  | delivered hpc | scanDue hpc | quitEvent rest hpc | dnsWake raw rest hpc | badSlot raw rest hpc
  | startCheck raw rest hpc | readField raw f todo seen rest hpc | pass raw seen rest hpc
  | stale raw seen rest hpc | fatal s rest hpc | served s rest hpc | alreadyClosed s rest hpc =>
      exact moves hpc rfl hgarbage hlists hsub hsame rfl rfl rfl rfl (.same rfl rfl)
  | batchDone hpc =>
      refine moves hpc rfl hgarbage hlists hsub (fun q hq => .inl ?_) rfl rfl rfl rfl (.same rfl rfl)
      simpa [WorkerPc.carried, WorkerPc.pending, AfterUnref.keeps] using hq
  | lose s rest hpc hfree hopen he => cases he
  | close s rest hpc =>
      have hmem := hserved hpc
      exact moves hpc rfl rfl rfl (herase s) (hcollect hmem) rfl rfl rfl rfl
        (.store s _ (hforeign hmem) rfl rfl)
  | scanLock hpc =>
      exact moves hpc rfl hgarbage hlists hsub hsame hfar rfl rfl rfl (.same rfl rfl)
  | scanEnd hpc =>
      refine moves hpc rfl hgarbage hlists hsub (fun q hq => .inl ?_) hfar rfl rfl rfl (.same rfl rfl)
      simpa [WorkerPc.carried, WorkerPc.pending, AfterUnref.keeps] using hq
  | scanClose s hpc hchoice hscan =>
      rw [hpc] at hcond
      have hmem := hcond hchoice hscan
      exact moves hpc rfl rfl rfl (herase s) (hcollect hmem) rfl rfl rfl rfl
        (.store s _ (hforeign hmem) rfl rfl)
  | scanFull s hpc hchoice hscan =>
      rw [hpc] at hcond
      have hmem := hcond hchoice hscan
      exact moves hpc rfl hgarbage rfl (herase s) (hcollect hmem) hfar rfl rfl rfl
        (.store s _ (hforeign hmem) rfl rfl)
  | scanLose s hpc hchoice hscan hfull he => cases he
  | scanSkip s hpc =>
      exact moves hpc rfl hgarbage hlists hsub hsame rfl rfl rfl rfl (.same rfl rfl)
  | relock keep nxt hpc =>
      exact moves hpc rfl rfl hlists hsub hsame hfar rfl rfl rfl (.same rfl rfl)
  | unref r rest u k st₁ u' hpc hunref =>
      have hun := worker_unrefs hb ha hpc
      obtain ⟨hlist, -⟩ := unrefStep_place hb hun hunref
      have hframe := EpollEngine.unref_frame hunref
      have hr : lst.foreign r.slot = true := by
        refine hl.places.workers v hv _ (.inr ?_)
        rw [hpc]
        exact List.mem_map_of_mem (List.mem_append_left _ List.mem_cons_self)
      refine moves hpc (congrArg (Function.update · v _) hframe.worker)
        (hframe.garbage.trans hgarbage) (hlist.trans hlists) hsub (fun q hq => .inl ?_)
        (congrFun hframe.listLock me) (congrFun hframe.stopping me) hframe.handshake hframe.tenancy
        (unrefStep_awayMove hb hun hr hunref rfl rfl)
      cases u' with
      | none => exact (List.mem_append.mp hq).elim (fun hq => List.mem_append_left _
          (List.mem_cons_of_mem r hq)) fun hq => List.mem_append_right _ hq
      | some u' => exact hq
  | loop u hpc | exit u hpc =>
      exact moves hpc rfl hgarbage hlists hsub hempty rfl rfl rfl rfl (.same rfl rfl)
  | scanOn u keep nxt hpc =>
      exact moves hpc rfl rfl hlists hsub hsame rfl rfl rfl rfl (.same rfl rfl)
  | drainOn u hpc =>
      exact moves hpc rfl hgarbage hlists hsub hsame rfl rfl rfl rfl (.same rfl rfl)
  | drained u hpc =>
      refine moves hpc rfl hgarbage hlists hsub (fun q hq => .inl ?_) rfl rfl rfl rfl (.same rfl rfl)
      simpa [WorkerPc.carried, WorkerPc.pending, AfterUnref.keeps] using hq
  | stop hpc =>
      exact moves hpc rfl hgarbage hlists hsub hsame rfl (Function.update_of_ne hv.symm ..) rfl rfl
        (.same rfl rfl)
  | drainLock hpc =>
      exact moves hpc rfl hgarbage hlists hsub hsame hfar rfl rfl rfl (.same rfl rfl)
  | drainClose collected s rest hpc hlist =>
      have hmem : s ∈ eng.connList v := hlist ▸ List.mem_cons_self
      refine moves hpc rfl hgarbage rfl (hlist ▸ List.subset_cons_self s rest) (fun q hq => ?_) rfl rfl
        rfl rfl (.store s _ (hforeign hmem) rfl rfl)
      rcases List.mem_append.mp hq with hq | hq
      · exact (hcollect hmem q hq).imp_left fun hq => List.mem_append_left _ hq
      · exact .inl (List.mem_append_right _ hq)
  | drainSkip collected s rest hpc hlist =>
      exact moves hpc rfl hgarbage rfl (hlist ▸ List.subset_cons_self s rest) hsame rfl rfl rfl rfl
        (.same rfl rfl)
  | drainFull collected s rest hpc =>
      exact moves hpc rfl hgarbage hlists hsub hsame hfar rfl rfl rfl (.same rfl rfl)
  | drainEnd collected hpc =>
      exact moves hpc rfl hgarbage hlists hsub hsame hfar rfl rfl rfl (.same rfl rfl)

end FiveGProxy
