import FiveGProxy.Slots.ListLoop

/-!
# The engine and its list

Each step of the engine is some steps of the list of worker `me`, or none: those of its threads and
of its loop are the same there, those of the others a `touch` or a `give`. So as long as `me` is in
its loop, what `ListSafe` says of the pointers holds in the engine (`engine_list`).
-/

namespace FiveGProxy

open Steps

variable {me : ℕ} {own own' : ℕ → Owner} {eng eng' : EpollEngine} {lst lst' : ListRun}
  {h i v s : ℕ} {r : Ref} {c : Conn}

/-! ### A new connection -/

section Acquire

variable {c' : Conn} {rest : List ℕ}

theorem ShowsSlots.acquire (hs : ShowsSlots me eng lst) (hb : Base .tcp own eng)
    (ha : ∀ a, AgentOk .tcp own eng a) (hfree : eng.freeSlots = s :: rest)
    (hconn : eng'.conn = Function.update eng.conn s c)
    (htenancy : eng'.tenancy = Function.update eng.tenancy s (eng.tenancy s + 1))
    (hfree' : eng'.freeSlots = rest)
    (hkeep : ∀ j q todo, (eng.handshake j).fill me = some (q, todo) →
      (eng'.handshake j).fill me = some (q, todo))
    (hfill : ∀ j q todo, (eng'.handshake j).fill me = some (q, todo) →
      (eng.handshake j).fill me = some (q, todo) ∨
        q.slot = s ∧ ListRun.filled me s c' = todo.foldl (Store.apply .tcp s) c)
    (hself : c' = c ∨ ∃ j q todo, (eng'.handshake j).fill me = some (q, todo) ∧ q.slot = s)
    (hconn' : lst'.conn = Function.update lst.conn s c')
    (htenancy' : lst'.tenancy = Function.update lst.tenancy s (lst.tenancy s + 1))
    (hfree'' : lst'.freeSlots = rest) : ShowsSlots me eng' lst' := by
  have hown : own s = .free := (hb.free.2 s (by rw [hfree]; exact List.mem_cons_self)).1
  have hnodup := hb.free.1
  rw [hfree, List.nodup_cons] at hnodup
  have hmem : ∀ t, t ∈ rest → t ≠ s ∧ t ∈ eng.freeSlots := by
    intro t ht
    refine ⟨?_, hfree ▸ List.mem_cons_of_mem s ht⟩
    rintro rfl
    exact hnodup.1 ht
  have hapart : ∀ {j q todo}, (eng.handshake j).fill me = some (q, todo) → q.slot ≠ s := by
    rintro j q todo hi rfl
    cases hown.symm.trans (fill_own ha hi)
  refine ⟨by rw [htenancy', htenancy, hs.tenancy], by rw [hfree'', hfree'], fun t ht => ?_,
    fun j q todo hi => ?_, fun t ht hdone => ?_⟩
  · obtain ⟨hts, ht'⟩ := hmem t (hfree' ▸ ht)
    rw [hconn, hconn', Function.update_of_ne hts, Function.update_of_ne hts]
    exact hs.gen t ht'
  · rcases hfill j q todo hi with hi' | ⟨rfl, heq⟩
    · rw [hconn, hconn', Function.update_of_ne (hapart hi'), Function.update_of_ne (hapart hi')]
      exact hs.filling j q todo hi'
    · rw [hconn, hconn', Function.update_self, Function.update_self]
      exact heq
  · by_cases hts : t = s
    · rcases hself with rfl | ⟨j, q, todo, hj, hq⟩
      · rw [hconn, hconn', hts, Function.update_self, Function.update_self]
      · exact absurd (hq.trans hts.symm) (hdone j q todo hj)
    · rw [hconn, hconn', Function.update_of_ne hts, Function.update_of_ne hts]
      refine hs.conn t (fun hmem' => ?_) fun j q todo hi => hdone j q todo (hkeep j q todo hi)
      rw [hfree] at hmem'
      exact ht (hfree' ▸ (List.mem_cons.mp hmem').resolve_left hts)

/-- The stores into a new slot leave nothing of what was there but its generation. -/
theorem filled_eq {d : Conn} (hgen : c.gen = d.gen) : ListRun.filled me s c =
    (slotAcquireStores d.gen ++ handoffStores .tcp me).foldl (Store.apply .tcp s) d := by
  rw [ListRun.filled, hgen]
  rfl

/-- The state behind the section of `slot_acquire`. -/
def EpollEngine.acquired (st : EpollEngine) (h idx : ℕ) (roles : List FdRole) (s : ℕ)
    (rest : List ℕ) : EpollEngine :=
  { (st.setConn s { st.conn s with gen := (st.conn s).gen + 1 }).setHandshake h
      (.prepare ⟨s, st.tenancy s + 1⟩ idx roles
        (slotAcquireStores ((st.conn s).gen + 1) ++ handoffStores .tcp idx)) with
    freeSlots := rest
    tenancy := Function.update st.tenancy s (st.tenancy s + 1) }

variable {idx : ℕ} {roles : List FdRole}

theorem fill_acquired (hidle : eng.handshake h = .idle) {j : ℕ} {q : Ref} {todo : List Store} :
    ((eng.acquired h idx roles s rest).handshake j).fill me = some (q, todo) ↔
      (eng.handshake j).fill me = some (q, todo) ∨ j = h ∧ idx = me ∧
        q = ⟨s, eng.tenancy s + 1⟩ ∧
          todo = slotAcquireStores ((eng.conn s).gen + 1) ++ handoffStores .tcp idx := by
  have hhandshake : (eng.acquired h idx roles s rest).handshake =
      Function.update eng.handshake h (.prepare ⟨s, eng.tenancy s + 1⟩ idx roles
        (slotAcquireStores ((eng.conn s).gen + 1) ++ handoffStores .tcp idx)) := rfl
  rw [hhandshake]
  by_cases hj : j = h
  · rw [hj, Function.update_self, hidle]
    by_cases hidx : idx = me
    · simp [HandshakePc.fill, hidx, eq_comm]
    · simp [HandshakePc.fill, hidx]
  · rw [Function.update_of_ne hj]
    simp [hj]

/-- Thread `h` acquires a slot; in the list that is a `handoff`, or a `take`. -/
theorem ShowsList.acquired (hl : ShowsList me eng lst)
    (ha : ∀ a, AgentOk .tcp own eng a) (hb' : Base .tcp own' (eng.acquired h idx roles s rest))
    (ha' : ∀ a, AgentOk .tcp own' (eng.acquired h idx roles s rest) a)
    (hidle : eng.handshake h = .idle) (hfree : eng.freeSlots = s :: rest) {pc' : HandoffPc}
    (hslots : ShowsSlots me (eng.acquired h idx roles s rest) lst')
    (hothers : lst'.handshake = Function.update lst.handshake h pc')
    (hshown : idx = me ∧ pc' = .fill ⟨s, eng.tenancy s + 1⟩ ∨
      idx ≠ me ∧ pc' = .idle ∧ lst'.foreign s = true)
    (hforeign : ∀ t, lst.foreign t = true → lst'.foreign t = true)
    (hlock : lst'.listLock = lst.listLock) (hmembers : lst'.members = lst.members)
    (hworker : lst'.worker = lst.worker) (hgarbage : lst'.garbage = lst.garbage) :
    ShowsList me (eng.acquired h idx roles s rest) lst' := by
  have hframe : ListFrame me eng (eng.acquired h idx roles s rest) lst lst' := by
    refine ⟨fun t => ?_, fun t ht => ?_, fun t ht => .inl (hforeign t ht), fun _ _ _ => .inl⟩
    · by_cases hts : t = s
      · simp [EpollEngine.acquired, hts]
      · simp [EpollEngine.acquired, hts]
    · by_cases hts : t = s
      · exact .inr (by simp [EpollEngine.acquired, hts])
      · rw [hfree] at ht
        exact .inl ((List.mem_cons.mp ht).resolve_left hts)
  have hlist : lst.members = (eng.acquired h idx roles s rest).enlisting me ++ eng.connList me :=
    members_thread hl.places rfl (by rw [hidle]; rfl) rfl rfl
  refine ⟨hslots, hl.places.thread ha hb' ha' hframe rfl (fun i hi => ?_) ?_ rfl rfl rfl hworker
    hgarbage (hlock.trans hl.places.lock) (hmembers.trans hlist)⟩
  · rw [hothers, Function.update_of_ne hi]
  · rw [hothers, Function.update_self]
    rcases hshown with ⟨rfl, rfl⟩ | ⟨hidx, rfl, hs⟩
    · exact .inl (.prepare _ _ _)
    · refine .inr ⟨rfl, fun h => hidx (Option.some.inj h), ?_⟩
      rintro r ⟨⟩ - -
      exact hs

theorem ShowsList.handoffStep (hl : ShowsList me eng lst) (hb : Base .tcp own eng)
    (ha : ∀ a, AgentOk .tcp own eng a) (hb' : Base .tcp own' eng')
    (ha' : ∀ a, AgentOk .tcp own' eng' a) (hstep : eng.handoffStep .tcp h idx roles = some eng') :
    ∃ lst', Reaches (listStep me) lst lst' ∧ ShowsList me eng' lst' := by
  unfold EpollEngine.handoffStep at hstep
  split at hstep
  case isFalse => cases hstep
  case isTrue hready =>
    split at hstep
    case h_1 =>
      cases hstep
      exact ⟨lst, .refl lst, hl⟩
    case h_2 s rest hfree =>
      replace hstep : eng.acquired h idx roles s rest = eng' := Option.some.inj hstep
      subst hstep
      have hidle := hready.1
      have hfree' : lst.freeSlots = s :: rest := hl.slots.freeSlots.trans hfree
      have hown : own s = .free := (hb.free.2 s (by rw [hfree]; exact List.mem_cons_self)).1
      have hgen : (lst.conn s).gen + 1 = (eng.conn s).gen + 1 := by
        rw [hl.slots.gen s (by rw [hfree]; exact List.mem_cons_self)]
      have htenancy : lst.tenancy s + 1 = eng.tenancy s + 1 := by rw [hl.slots.tenancy]
      have hidle' : lst.handshake h = .idle := by
        have hshown := hl.places.threads h
        rw [hidle] at hshown
        rcases hshown with hshown | ⟨hidle', -⟩
        · generalize lst.handshake h = p at hshown
          cases hshown
          rfl
        · exact hidle'
      have hkeep : ∀ j q todo, (eng.handshake j).fill me = some (q, todo) →
          ((eng.acquired h idx roles s rest).handshake j).fill me = some (q, todo) :=
        fun j q todo hj => (fill_acquired hidle).mpr (.inl hj)
      by_cases hidx : idx = me
      · have hnext : listStep me lst (.handoff h) = some
            { (lst.setConn s { lst.conn s with gen := (lst.conn s).gen + 1 }).setHandshake h
                (.fill ⟨s, lst.tenancy s + 1⟩) with
              freeSlots := rest
              tenancy := Function.update lst.tenancy s (lst.tenancy s + 1) } := by
          simp only [listStep, ListRun.handoffStep, hidle', if_true, hfree']
        refine ⟨_, .single hnext, hl.acquired ha hb' ha' hidle hfree ?_ rfl
          (.inl ⟨hidx, by rw [htenancy]⟩) (fun _ => id) rfl rfl rfl rfl⟩
        refine hl.slots.acquire hb ha hfree rfl rfl rfl hkeep (fun j q todo hj => ?_) (.inr ?_) rfl rfl
          rfl
        · rcases (fill_acquired hidle).mp hj with hj | ⟨-, -, rfl, rfl⟩
          · exact .inl hj
          · exact .inr ⟨rfl, hidx ▸ filled_eq hgen⟩
        · exact ⟨h, _, _, (fill_acquired hidle).mpr (.inr ⟨rfl, hidx, rfl, rfl⟩), rfl⟩
      · -- what has been left in the slot is overwritten at once
        have hpass : ¬ListRun.Passes me ((eng.acquired h idx roles s rest).conn s) := by
          intro hpass
          have hin := ((hb.lists me).2 s).mp (hb'.passes_mem hpass)
          simp [hown] at hin
        have htake : listStep me lst .take = some
            { lst.setConn s { lst.conn s with gen := (lst.conn s).gen + 1 } with
              freeSlots := rest
              tenancy := Function.update lst.tenancy s (lst.tenancy s + 1)
              foreign := Function.update lst.foreign s true } := by
          simp only [listStep, hfree']
        have htouch : ∀ {st : ListRun}, st.foreign s = true →
            listStep me st (.touch s ((eng.acquired h idx roles s rest).conn s) none none) = some
              { st.setConn s ((eng.acquired h idx roles s rest).conn s) with
                links := st.links.write s none none } := fun hs => if_pos ⟨hs, hpass⟩
        refine ⟨_, (Reaches.single htake).trans (.single (htouch (Function.update_self ..))),
          hl.acquired ha hb' ha' hidle hfree ?_ ?_ (.inr ⟨hidx, rfl, Function.update_self ..⟩)
          (fun t ht => ?_) rfl rfl rfl rfl⟩
        · refine hl.slots.acquire hb ha hfree ?_ rfl rfl hkeep (fun j q todo hj => ?_) (.inl rfl)
            (Function.update_idem ..) rfl rfl
          · exact congrArg (Function.update eng.conn s) (Function.update_self s _ eng.conn).symm
          · rcases (fill_acquired hidle).mp hj with hj | ⟨-, hme, -⟩
            · exact .inl hj
            · exact absurd hme hidx
        · exact (Function.update_eq_iff.mpr ⟨hidle'.symm, fun _ _ => rfl⟩).symm
        · by_cases hts : t = s
          · rw [hts]
            exact Function.update_self ..
          · exact (Function.update_of_ne hts _ _).trans ht

end Acquire

/-! ### The runs of the engine -/

def StaysInLoop (me : ℕ) (st : EpollEngine) : EngineEvent → Prop
  | .worker w _ _ => w = me → InLoop st (st.worker w)
  | .quit | .restart | .handoff .. | .handshake .. => True

instance (st : EpollEngine) (pc : WorkerPc) : Decidable (InLoop st pc) :=
  match pc with
  | .loopTest => inferInstanceAs (Decidable (_ = _))
  | .events (_ :: _) => inferInstanceAs (Decidable (_ ≠ _))
  | .events [] | .wait | .check .. | .process .. | .fatal .. | .scanLock | .scan _ | .relock ..
  | .unref .. | .stop | .drainLock | .drain _ | .exited => inferInstanceAs (Decidable True)

instance (me : ℕ) (st : EpollEngine) (ev : EngineEvent) : Decidable (StaysInLoop me st ev) :=
  match ev with
  | .worker w _ _ => inferInstanceAs (Decidable (w = me → InLoop st (st.worker w)))
  | .quit | .restart | .handoff .. | .handshake .. => inferInstanceAs (Decidable True)

/-- Both start with the worker in front of `epoll_wait`. -/
theorem ShowsList.init (me : ℕ) : ∃ lst, Reaches (listStep me) ListRun.init lst ∧
    ShowsList me (EpollEngine.init .tcp) lst := by
  have hnext : listStep me ListRun.init .noScan =
      some { ListRun.init with worker := .unref [] .call none } := by
    simp only [listStep]
    exact if_pos rfl
  have hslots : ShowsSlots me (EpollEngine.init .tcp) ListRun.init :=
    { tenancy := rfl
      freeSlots := rfl
      gen := fun _ _ => rfl
      filling := fun _ _ _ hfill => by cases hfill
      conn := fun _ _ _ => rfl }
  have hmoved : ∀ {st : ListRun}, ShowsSlots me (EpollEngine.init .tcp) st →
      ShowsSlots me (EpollEngine.init .tcp) { st with worker := .unref [] .call none } :=
    fun hs => hs.same {} (fun _ => rfl)
  refine ⟨_, .single hnext, hmoved hslots, ?_⟩
  exact
    { lock := rfl
      members := rfl
      stopping := rfl
      worker := .loopTest _ _ _
      threads := fun _ => .inl .idle
      workers := by
        rintro v - s (hmem | hmem)
        · cases hmem
        · simp [EpollEngine.init, WorkerPc.carried, WorkerPc.pending] at hmem }

theorem ShowsList.step (hl : ShowsList me eng lst) (hreach : Reaches (listStep me) ListRun.init lst)
    (hrun : RunInv .tcp eng) (hrun' : RunInv .tcp eng') (hme : me < Engine.tcp.workerCount)
    {ev : EngineEvent} (hcond : ActsOnOwn .tcp eng ev) (hstay : StaysInLoop me eng ev)
    (hstep : engineStep .tcp eng ev = some eng') :
    ∃ lst', Reaches (listStep me) ListRun.init lst' ∧ ShowsList me eng' lst' := by
  have hinv : ListInv me lst := by
    obtain ⟨evs, hevs⟩ := hreach
    exact (ListInv.init me).of_run hevs
  obtain ⟨own, hb, -, ha⟩ := hrun.engine
  obtain ⟨own', hb', -, ha'⟩ := hrun'.engine
  have hgoes : (∃ lst', Reaches (listStep me) lst lst' ∧ ShowsList me eng' lst') →
      ∃ lst', Reaches (listStep me) ListRun.init lst' ∧ ShowsList me eng' lst' := by
    rintro ⟨lst', hreach', hl'⟩
    exact ⟨lst', hreach.trans hreach', hl'⟩
  cases ev with
  | quit =>
      cases hstep
      exact ⟨lst, hreach, hl.slots.same {} (fun _ => rfl), hl.places.lock,
        hl.places.members, hl.places.stopping, hl.places.worker, hl.places.threads, hl.places.workers⟩
  | restart =>
      simp only [engineStep] at hstep
      split at hstep
      case isTrue hended =>
        -- the worker would have left its loop
        have hshown := hl.places.worker
        rw [hended.1 me hme] at hshown
        generalize lst.worker = w, lst.garbage = g at hshown
        cases hshown
      case isFalse => cases hstep
  | handoff i idx roles => exact hgoes (hl.handoffStep hb ha hb' ha' hstep)
  | handshake i ok =>
      refine hgoes ?_
      rcases hl.places.threads i with hshown | ⟨hidle, habroad⟩
      · exact hl.threadStep hinv hb ha hb' ha' hshown hcond hstep
      · exact hl.abroadStep hinv hb ha hb' ha' hidle habroad hcond hstep
  | worker w choice batch =>
      simp only [engineStep] at hstep
      split at hstep
      case isFalse => cases hstep
      case isTrue =>
        by_cases hw : w = me
        · subst hw
          exact hl.loopStep hinv hreach hb ha hb' ha' hme hcond (hstay rfl) hstep
        · exact hgoes (hl.awayStep hinv hb ha hb' ha' hw hcond hstep)

/-- Worker 0 gets two connections and worker 1 gets one; the scan of worker 0 collects the newer of
its two. -/
def scanOfTwo : List EngineEvent :=
  List.flatten [handOver 0 0, handOver 1 0, handOver 2 1, List.replicate 5 (.worker 0 true []),
    .worker 0 false [] :: List.replicate 6 (.worker 0 true [])]

end FiveGProxy
