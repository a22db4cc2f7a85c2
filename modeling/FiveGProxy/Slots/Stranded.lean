import FiveGProxy.Slots.Exit

/-!
# No connection is stranded

Every TCP connection that was handed to a worker is finalized, by the handshake thread that could not
register it or by the worker. `HandoffLog` records to which worker a connection was handed and which
thread has finalized it; `Has` says that a worker still has a connection, on its list or among those
it unreferences. A connection that is on no list and with no thread would be stranded.
-/

namespace FiveGProxy

open Steps

/-- Which worker and which handshake thread a connection was handed to and by, and the runs of
`conn_finalize` that have come to their end. -/
structure HandoffLog where
  handed : Ref → Option (ℕ × ℕ)
  finalized : List (Ref × Agent)

def HandoffLog.empty : HandoffLog := ⟨fun _ => none, []⟩

def recordHandoff (st : EpollEngine) (ev : EngineEvent) (log : HandoffLog) : HandoffLog :=
  match ev with
  | .handoff h idx _ =>
      match st.freeSlots with
      | [] => log
      | s :: _ => { log with
          handed := Function.update log.handed ⟨s, st.tenancy s + 1⟩ (some (idx, h)) }
  | .handshake h _ =>
      match st.handshake h with
      | .unref _ (.push s) =>
          { log with finalized := log.finalized ++ [(st.current s, .handshake h)] }
      | _ => log
  | .worker w _ _ =>
      match st.worker w with
      | .unref (_ :: _) (.push s) _ =>
          { log with finalized := log.finalized ++ [(st.current s, .worker w)] }
      | _ => log
  | .quit | .restart => log

namespace HandshakePc

def handing : HandshakePc → Option Ref
  | .prepare r .. | .setup r .. | .lock r .. | .locked r .. | .add r .. | .rollback r _ | .unref r _ =>
      some r
  | .idle | .stamp _ | .register _ => none

def chosen : HandshakePc → Option ℕ
  | .prepare _ idx .. | .setup _ idx _ | .lock _ idx _ | .locked _ idx _ | .add _ idx _
  | .rollback _ idx => some idx
  | .idle | .stamp _ | .register _ | .unref .. => none

end HandshakePc

/-- The connections that the worker has collected, with the one it is finalizing. -/
def WorkerPc.held (pc : WorkerPc) (garbage : List Ref) : List Ref :=
  match pc with
  | .unref rest _ k => rest ++ k.keeps garbage
  | pc => pc.pending garbage

namespace EpollEngine

/-- Worker `w` has connection `r`. -/
def Has (st : EpollEngine) (w : ℕ) (r : Ref) : Prop :=
  (st.tenancy r.slot = r.tenancy ∧ r.slot ∈ st.connList w) ∨ r ∈ (st.worker w).held (st.garbage w)

/-- Worker `w` is at the end of `conn_finalize` of `r`. -/
def Finishes (st : EpollEngine) (w : ℕ) (r : Ref) : Prop :=
  ∃ rest s k, st.worker w = .unref (r :: rest) (.push s) k

end EpollEngine

variable {st st' : EpollEngine} {own : ℕ → Owner} {w : ℕ}

/-! ### What a step of a worker does to the connections it has -/

/-- Between `st` and `st'` worker `w` has only let go of connections that it has finalized, and the
other workers have what they had. -/
structure KeepsHas (st st' : EpollEngine) (w : ℕ) : Prop where
  others : ∀ v, v ≠ w → ∀ r, st'.Has v r ↔ st.Has v r
  back : ∀ r, st'.Has w r → st.Has w r
  forth : ∀ r, st.Has w r → st'.Has w r ∨ st.Finishes w r

theorem KeepsHas.of_iff {pc : WorkerPc} {g : List Ref} {l : List ℕ}
    (htenancy : st'.tenancy = st.tenancy) (hworker : st'.worker = Function.update st.worker w pc)
    (hgarbage : st'.garbage = Function.update st.garbage w g)
    (hlist : st'.connList = Function.update st.connList w l)
    (hiff : ∀ r, (st.tenancy r.slot = r.tenancy ∧ r.slot ∈ l) ∨ r ∈ pc.held g ↔ st.Has w r) :
    KeepsHas st st' w := by
  have hw : ∀ r, st'.Has w r ↔ st.Has w r := by
    intro r
    rw [EpollEngine.Has, htenancy, hworker, hgarbage, hlist, Function.update_self,
      Function.update_self, Function.update_self]
    exact hiff r
  refine ⟨fun v hv r => ?_, fun r => (hw r).mp, fun r hr => Or.inl ((hw r).mpr hr)⟩
  rw [EpollEngine.Has, EpollEngine.Has, htenancy, hworker, hgarbage, hlist, Function.update_of_ne hv,
    Function.update_of_ne hv, Function.update_of_ne hv]

theorem KeepsHas.moves {pc : WorkerPc} {g : List Ref} (htenancy : st'.tenancy = st.tenancy)
    (hworker : st'.worker = Function.update st.worker w pc)
    (hgarbage : st'.garbage = Function.update st.garbage w g) (hlist : st'.connList = st.connList)
    (hheld : ∀ r, r ∈ pc.held g ↔ r ∈ (st.worker w).held (st.garbage w)) : KeepsHas st st' w := by
  refine KeepsHas.of_iff (l := st.connList w) htenancy hworker hgarbage ?_ fun r => ?_
  · rw [hlist, Function.update_eq_self]
  · exact or_congr Iff.rfl (hheld r)

/-- The worker moves a connection from its list to those it has collected. -/
theorem KeepsHas.collects {pc : WorkerPc} {g : List Ref} {s : ℕ} (htenancy : st'.tenancy = st.tenancy)
    (hworker : st'.worker = Function.update st.worker w pc)
    (hgarbage : st'.garbage = Function.update st.garbage w g)
    (hlist : st'.connList = Function.update st.connList w ((st.connList w).erase s))
    (hmem : s ∈ st.connList w) (hnodup : (st.connList w).Nodup)
    (hheld : ∀ r, r ∈ pc.held g ↔ r ∈ (st.worker w).held (st.garbage w) ∨ r = st.current s) :
    KeepsHas st st' w := by
  refine KeepsHas.of_iff htenancy hworker hgarbage hlist fun r => ?_
  rw [hheld, EpollEngine.Has, hnodup.mem_erase_iff]
  by_cases hrs : r.slot = s
  · have hcur : r = st.current s ↔ st.tenancy r.slot = r.tenancy := by
      obtain ⟨t, n⟩ := r
      simp only [EpollEngine.current, Ref.mk.injEq] at hrs ⊢
      subst hrs
      simp [eq_comm]
    rw [hcur]
    simp [hrs, hmem, or_comm]
  · have hne : r ≠ st.current s := by
      rintro rfl
      exact hrs rfl
    simp [hrs, hne]

theorem KeepsHas.stays {pc : WorkerPc} (htenancy : st'.tenancy = st.tenancy)
    (hworker : st'.worker = Function.update st.worker w pc) (hgarbage : st'.garbage = st.garbage)
    (hlist : st'.connList = st.connList)
    (hheld : pc.held (st.garbage w) = (st.worker w).held (st.garbage w)) : KeepsHas st st' w :=
  KeepsHas.moves htenancy hworker (hgarbage.trans (Function.update_eq_self w st.garbage).symm) hlist
    fun r => by rw [hheld]

theorem Base.mem_connList {e : Engine} {s : ℕ} (hb : Base e own st) (hown : own s = .listed w) :
    s ∈ st.connList w := ((hb.lists w).2 s).mpr (by simp [hown])

/-- A step of `conn_unref` in a worker. -/
theorem KeepsHas.unref {r : Ref} {rest : List Ref} {pc : UnrefPc} {k : AfterUnref}
    (hb : Base .tcp own st) (ha : ∀ a, AgentOk .tcp own st a)
    (hpc : st.worker w = .unref (r :: rest) pc k) {p : EpollEngine × Option UnrefPc}
    (hstep : st.unrefStep r pc = some p) :
    KeepsHas st (p.1.setWorker w (EpollEngine.afterUnref r rest k p.2)) w := by
  obtain ⟨st₁, u⟩ := p
  obtain ⟨hlist, hlast⟩ := unrefStep_place hb (worker_unrefs hb ha hpc) hstep
  obtain ⟨-, -, -, hworker, hgarbage, -, htenancy, -, -⟩ := EpollEngine.unref_frame hstep
  cases u with
  | some u =>
      refine KeepsHas.stays htenancy (congrArg (Function.update · w _) hworker) hgarbage hlist ?_
      rw [hpc]
      rfl
  | none =>
      -- the last step: `r` is finalized, and the others stay
      show KeepsHas st (st₁.setWorker w (.unref rest .call k)) w
      have hfin : st.Finishes w r := ⟨rest, r.slot, k, hlast rfl ▸ hpc⟩
      have hpc' : (st₁.setWorker w (.unref rest .call k)).worker =
          Function.update st.worker w (.unref rest .call k) :=
        congrArg (Function.update · w _) hworker
      refine ⟨fun v hv r' => ?_, fun r' hr' => ?_, fun r' hr' => ?_⟩
      · rw [EpollEngine.Has, EpollEngine.Has, hpc', Function.update_of_ne hv]
        show (st₁.tenancy _ = _ ∧ _ ∈ st₁.connList v) ∨ _ ∈ WorkerPc.held _ (st₁.garbage v) ↔ _
        rw [htenancy, hlist, hgarbage]
      · rw [EpollEngine.Has, hpc', Function.update_self] at hr'
        rw [EpollEngine.Has, hpc]
        refine hr'.imp (fun h => ?_) fun h => ?_
        · rw [← htenancy, ← hlist]
          exact h
        · rw [← hgarbage]
          exact List.mem_cons_of_mem r h
      · rw [EpollEngine.Has, hpc', Function.update_self]
        rw [EpollEngine.Has, hpc] at hr'
        show ((st₁.tenancy _ = _ ∧ _ ∈ st₁.connList w) ∨ _ ∈ WorkerPc.held _ (st₁.garbage w)) ∨ _
        rw [htenancy, hlist, hgarbage]
        rcases hr' with h | h
        · exact Or.inl (Or.inl h)
        · rcases List.mem_cons.mp h with rfl | h
          · exact Or.inr hfin
          · exact Or.inl (Or.inr h)

theorem workerStep_has {choice : Bool} {batch : List (BitVec 64)} (hinv : EngineInv .tcp st)
    (hcond : WorkerActsOnOwn .tcp st w choice (st.worker w))
    (hstep : st.workerStep .tcp w choice batch = some st') : KeepsHas st st' w := by
  obtain ⟨own, hb, hp, ha⟩ := hinv
  have hnodup : (st.connList w).Nodup := (hb.lists w).1
  have stays : ∀ {pc pc' : WorkerPc}, st.worker w = pc →
      pc'.held (st.garbage w) = pc.held (st.garbage w) → KeepsHas st (st.setWorker w pc') w := by
    intro pc pc' hpc hheld
    refine KeepsHas.stays rfl rfl rfl rfl ?_
    rw [hheld, hpc]
  cases EpollEngine.worker_transition hstep with
  | running hpc hrunning => exact KeepsHas.moves rfl rfl rfl rfl fun r => by rw [hpc]; rfl
  | stopped hpc hstopped =>
      rw [hpc] at hcond
      exact stays hpc (hcond hstopped)
  | batchDone hpc => exact stays hpc (List.append_nil _)
  | close s rest hpc hfree hopen hroom =>
      have hmem := hb.mem_connList ((workerOk ha hpc).serving rfl s rfl).1
      refine KeepsHas.collects rfl rfl rfl rfl hmem hnodup fun r => ?_
      rw [hpc]
      exact List.mem_append.trans (or_congr Iff.rfl List.mem_singleton)
  | lose s rest hpc hfree hopen he => cases he
  | scanEnd hpc =>
      refine KeepsHas.stays rfl rfl rfl rfl ?_
      rw [hpc]
      exact List.append_nil _
  | scanClose s hpc hchoice hscan hroom =>
      rw [hpc] at hcond
      refine KeepsHas.collects rfl rfl rfl rfl (hcond hchoice hscan) hnodup fun r => ?_
      rw [hpc]
      exact List.mem_append.trans (or_congr Iff.rfl List.mem_singleton)
  | scanFull s hpc hchoice hscan hfull he =>
      rw [hpc] at hcond
      refine KeepsHas.collects rfl rfl (Function.update_eq_self w st.garbage).symm rfl
        (hcond hchoice hscan) hnodup fun r => ?_
      rw [hpc]
      exact List.mem_append.trans (or_congr Iff.rfl List.mem_singleton)
  | scanLose s hpc hchoice hscan hfull he => cases he
  | relock keep nxt hpc hfree => exact KeepsHas.moves rfl rfl rfl rfl fun r => by rw [hpc]; rfl
  | unref r rest u k st₁ u' hpc hunref => exact KeepsHas.unref hb ha hpc hunref
  | scanOn u keep nxt hpc => exact KeepsHas.moves rfl rfl rfl rfl fun r => by rw [hpc]; rfl
  | drained u hpc => exact stays hpc (List.append_nil _)
  | drainClose collected s rest hpc hlist hroom hmagic =>
      have hrest : rest = (st.connList w).erase s := by rw [hlist, List.erase_cons_head]
      refine KeepsHas.collects rfl rfl (Function.update_eq_self w st.garbage).symm
        (congrArg (Function.update st.connList w) hrest) (hlist ▸ List.mem_cons_self) hnodup
        fun r => ?_
      rw [hpc]
      simp [WorkerPc.held, WorkerPc.pending, or_assoc, or_comm (a := r = st.current s)]
  | drainSkip collected s rest hpc hlist hroom hmagic =>
      exact absurd (drain_inv hb hp ha hpc hlist).1 hmagic
  | _ =>
      have hpc := ‹st.worker w = _›
      exact KeepsHas.stays rfl rfl rfl rfl (by rw [hpc]; rfl)

/-! ### What a step of a handshake thread does to its connection -/

/-- What becomes of the connection of a handshake thread that goes from `pc` to `pc'`. -/
inductive Hands (st st' : EpollEngine) (pc pc' : HandshakePc) : Prop
  | keeps (hhanding : pc'.handing = pc.handing)
      (hchosen : ∀ idx, pc'.chosen = some idx → pc.chosen = some idx)
      (hlist : st'.connList = st.connList) (hpc : ∀ r s, pc ≠ .unref r (.push s))
  | enlists (r : Ref) (idx : ℕ) (roles : List FdRole) (hpc : pc = .locked r idx roles)
      (hpc' : pc' = .add r idx roles) (htenancy : st.tenancy r.slot = r.tenancy)
      (hlist : st'.connList = Function.update st.connList idx (r.slot :: st.connList idx))
  | withdraws (r : Ref) (idx : ℕ) (roles : List FdRole) (hpc : pc = .add r idx roles)
      (hpc' : pc' = .rollback r idx) (htenancy : st.tenancy r.slot = r.tenancy)
      (hlist : st'.connList = Function.update st.connList idx ((st.connList idx).erase r.slot))
  | gives (r : Ref) (idx : ℕ) (roles : List FdRole) (hpc : pc = .add r idx roles)
      (hpc' : pc'.handing = none) (htenancy : st.tenancy r.slot = r.tenancy)
      (hmem : r.slot ∈ st.connList idx) (hlist : st'.connList = st.connList)
  | finishes (r : Ref) (hpc : pc = .unref r (.push r.slot)) (hpc' : pc'.handing = none)
      (htenancy : st.tenancy r.slot = r.tenancy) (hlist : st'.connList = st.connList)

theorem handshakeStep_hands {h : ℕ} {ok : Bool} {e : Engine} (hinv : EngineInv e st)
    (hstep : st.handshakeStep e h ok = some st') :
    st'.worker = st.worker ∧ st'.garbage = st.garbage ∧ st'.tenancy = st.tenancy ∧
      ∃ pc, st'.handshake = Function.update st.handshake h pc ∧ Hands st st' (st.handshake h) pc := by
  obtain ⟨own, hb, hp, ha⟩ := hinv
  have hok : HandshakeOk e own st h (st.handshake h) := ha (.handshake h)
  have keeps : ∀ {st₁ : EpollEngine} {old pc : HandshakePc}, st.handshake h = old →
      st₁.worker = st.worker → st₁.garbage = st.garbage → st₁.tenancy = st.tenancy →
      st₁.handshake = Function.update st.handshake h pc → st₁.connList = st.connList →
      pc.handing = old.handing → (∀ idx, pc.chosen = some idx → old.chosen = some idx) →
      (∀ r s, old ≠ .unref r (.push s)) →
      st₁.worker = st.worker ∧ st₁.garbage = st.garbage ∧ st₁.tenancy = st.tenancy ∧
        ∃ pc, st₁.handshake = Function.update st.handshake h pc ∧
          Hands st st₁ (st.handshake h) pc := by
    intro st₁ old pc hpc hworker hgarbage htenancy hhandshake hlist hhanding hchosen hpush
    exact ⟨hworker, hgarbage, htenancy, pc, hhandshake, hpc ▸ .keeps hhanding hchosen hlist hpush⟩
  cases EpollEngine.handshake_transition hstep with
  | enlist r idx roles hpc hrunning =>
      rw [hpc] at hok ⊢
      exact ⟨rfl, rfl, rfl, _, rfl, .enlists r idx roles rfl rfl hok.2.1 rfl⟩
  | addFailed r idx role roles hpc =>
      rw [hpc] at hok ⊢
      exact ⟨rfl, rfl, rfl, _, rfl, .withdraws r idx _ rfl rfl hok.2.1 rfl⟩
  | added r idx hpc =>
      rw [hpc] at hok ⊢
      have hmem : r.slot ∈ st.connList idx := ((hb.lists idx).2 r.slot).mpr (by simp [hok.1])
      refine ⟨rfl, rfl, rfl, _, rfl, .gives r idx [] rfl ?_ hok.2.1 hmem rfl⟩
      cases e <;> rfl
  | unref r u st₁ u' hpc hunref =>
      obtain ⟨hlist, -⟩ := unrefStep_place hb (handshake_unrefs ha hpc) hunref
      obtain ⟨-, -, -, hworker, hgarbage, hhandshake, htenancy, -, -⟩ :=
        EpollEngine.unref_frame hunref
      refine keeps hpc hworker hgarbage htenancy (congrArg (Function.update · h _) hhandshake) hlist
        rfl (by rintro _ ⟨⟩) ?_
      rintro r' s ⟨⟩
      cases hunref
  | finalized r u st₁ hpc hunref =>
      have hunrefs := handshake_unrefs ha hpc
      obtain ⟨hlist, hlast⟩ := unrefStep_place hb hunrefs hunref
      obtain ⟨-, -, -, hworker, hgarbage, hhandshake, htenancy, -, -⟩ :=
        EpollEngine.unref_frame hunref
      refine ⟨hworker, hgarbage, htenancy, _, congrArg (Function.update · h _) hhandshake, ?_⟩
      obtain rfl := hlast rfl
      rw [hpc]
      exact .finishes r rfl rfl hunrefs.2.2.1 hlist
  | setupFailed r idx roles hpc | refuse r idx roles hpc | rollback r idx hpc =>
      exact keeps hpc rfl rfl rfl rfl rfl rfl (by rintro _ ⟨⟩) (by rintro _ _ ⟨⟩)
  | _ =>
      have hpc := ‹st.handshake h = _›
      exact keeps hpc rfl rfl rfl rfl rfl rfl (fun _ h => h) (by rintro _ _ ⟨⟩)

/-! ### The record -/

/-- What the record says of the connections, wherever they are. -/
structure LogInv (st : EpollEngine) (log : HandoffLog) : Prop where
  fresh : ∀ r p, log.handed r = some p → r.tenancy ≤ st.tenancy r.slot
  worker : ∀ r w h, log.handed r = some (w, h) → w < Engine.tcp.workerCount
  handing : ∀ h r, (st.handshake h).handing = some r →
    ∃ w, log.handed r = some (w, h) ∧ ∀ idx, (st.handshake h).chosen = some idx → idx = w
  has : ∀ w r, st.Has w r → ∃ h, log.handed r = some (w, h)
  finalized : ∀ r a, (r, a) ∈ log.finalized →
    ∃ w h, log.handed r = some (w, h) ∧ (a = .worker w ∨ a = .handshake h)
  tracked : ∀ r w h, log.handed r = some (w, h) → (st.handshake h).handing = some r ∨ st.Has w r ∨
    (r, .worker w) ∈ log.finalized ∨ (r, .handshake h) ∈ log.finalized

theorem LogInv.init : LogInv (EpollEngine.init .tcp) .empty where
  fresh := by rintro _ _ ⟨⟩
  worker := by rintro _ _ _ ⟨⟩
  handing := by rintro _ _ ⟨⟩
  has w r hr := by
    rcases hr with ⟨-, hr⟩ | hr
    · exact absurd hr List.not_mem_nil
    · exact absurd hr List.not_mem_nil
  finalized := by rintro _ _ ⟨⟩
  tracked := by rintro _ _ _ ⟨⟩

/-- The record of a worker's step: the end of `conn_finalize`, or nothing. -/
theorem recordHandoff_worker {e : Engine} (hinv : EngineInv e st) (w : ℕ) (choice : Bool)
    (batch : List (BitVec 64)) (log : HandoffLog) :
    let log' := recordHandoff st (.worker w choice batch) log
    log'.handed = log.handed ∧ (∀ r, st.Finishes w r → (r, .worker w) ∈ log'.finalized) ∧
      ∀ p ∈ log'.finalized, p ∈ log.finalized ∨ p.2 = .worker w ∧ st.Has w p.1 := by
  obtain ⟨own, hb, -, ha⟩ := hinv
  by_cases hfin : ∃ r, st.Finishes w r
  · obtain ⟨r, rest, s, k, hpc⟩ := hfin
    obtain ⟨-, -, htenancy, hpush⟩ := worker_unrefs hb ha hpc
    obtain ⟨rfl, -⟩ := hpush s rfl
    have hcur : st.current r.slot = r := by
      rw [EpollEngine.current, htenancy]
    simp only [recordHandoff, hpc, hcur]
    refine ⟨trivial, fun r' hr' => ?_, fun p hp => ?_⟩
    · obtain ⟨rest', s', k', hpc'⟩ := hr'
      rw [hpc] at hpc'
      cases hpc'
      exact List.mem_append_right _ List.mem_cons_self
    · refine (List.mem_append.mp hp).imp_right fun hp => ?_
      obtain rfl := List.mem_singleton.mp hp
      refine ⟨rfl, Or.inr ?_⟩
      rw [hpc]
      exact List.mem_cons_self
  · have hlog : recordHandoff st (.worker w choice batch) log = log := by
      simp only [recordHandoff]
      split
      case h_1 r rest s k hpc => exact absurd ⟨r, rest, s, k, hpc⟩ hfin
      case h_2 => rfl
    rw [hlog]
    exact ⟨rfl, fun r hr => absurd ⟨r, hr⟩ hfin, fun p hp => Or.inl hp⟩

theorem LogInv.stepWorker {log : HandoffLog} {choice : Bool} {batch : List (BitVec 64)}
    (h : LogInv st log) (hinv : EngineInv .tcp st)
    (hdelivered : (st.worker w).Delivered .tcp st.issued)
    (hcond : WorkerActsOnOwn .tcp st w choice (st.worker w))
    (hstep : st.workerStep .tcp w choice batch = some st') :
    LogInv st' (recordHandoff st (.worker w choice batch) log) := by
  obtain ⟨hothers, hback, hforth⟩ := workerStep_has hinv hcond hstep
  obtain ⟨hhandshake, -, htenancy, -⟩ := workerStep_same hdelivered hstep
  obtain ⟨hhanded, hfinishes, hnew⟩ := recordHandoff_worker hinv w choice batch log
  have hhas : ∀ v r, st'.Has v r → st.Has v r := by
    intro v r hr
    by_cases hv : v = w
    · subst hv
      exact hback r hr
    · exact (hothers v hv r).mp hr
  have hgrows : ∀ p ∈ log.finalized, p ∈ (recordHandoff st (.worker w choice batch) log).finalized := by
    intro p hp
    simp only [recordHandoff]
    split
    · exact List.mem_append_left _ hp
    · exact hp
  refine ⟨fun r p hr => ?_, fun r v i hr => ?_, fun i r hi => ?_, fun v r hr => ?_,
    fun r a hr => ?_, fun r v i hr => ?_⟩
  · rw [htenancy]
    exact h.fresh r p (hhanded ▸ hr)
  · exact h.worker r v i (hhanded ▸ hr)
  · rw [hhanded, hhandshake]
    exact h.handing i r (hhandshake ▸ hi)
  · rw [hhanded]
    exact h.has v r (hhas v r hr)
  · rw [hhanded]
    rcases hnew _ hr with hold | ⟨rfl, hrw⟩
    · exact h.finalized r a hold
    · obtain ⟨i, hi⟩ := h.has w r hrw
      exact ⟨w, i, hi, Or.inl rfl⟩
  · rw [hhanded] at hr
    rw [hhandshake]
    rcases h.tracked r v i hr with hpc | hv | hfin | hfin
    · exact Or.inl hpc
    · by_cases hvw : v = w
      · subst hvw
        rcases hforth r hv with hv' | hdone
        · exact Or.inr (Or.inl hv')
        · exact Or.inr (Or.inr (Or.inl (hfinishes r hdone)))
      · exact Or.inr (Or.inl ((hothers v hvw r).mpr hv))
    · exact Or.inr (Or.inr (Or.inl (hgrows _ hfin)))
    · exact Or.inr (Or.inr (Or.inr (hgrows _ hfin)))

theorem EpollEngine.has_congr {v : ℕ} {r : Ref} (hworker : st'.worker = st.worker)
    (hgarbage : st'.garbage = st.garbage) (htenancy : st'.tenancy = st.tenancy)
    (hlist : st'.connList = st.connList) : st'.Has v r ↔ st.Has v r := by
  rw [Has, Has, hworker, hgarbage, htenancy, hlist]

/-- The record of a handshake thread's step, when it is not at the end of `conn_finalize`. -/
theorem recordHandoff_handshake {h : ℕ} {ok : Bool} {log : HandoffLog}
    (hpc : ∀ r s, st.handshake h ≠ .unref r (.push s)) :
    recordHandoff st (.handshake h ok) log = log := by
  unfold recordHandoff
  dsimp only
  split
  case h_1 r s heq => exact absurd heq (hpc r s)
  case h_2 => rfl

theorem Ref.eq_of_current {r r' : Ref} (hslot : r'.slot = r.slot) (h : st.tenancy r.slot = r.tenancy)
    (h' : st.tenancy r'.slot = r'.tenancy) : r' = r := by
  obtain ⟨s, n⟩ := r
  obtain ⟨s', n'⟩ := r'
  simp only at hslot h h'
  subst hslot
  rw [← h, ← h']

section Handshake

variable {log : HandoffLog} {h : ℕ} {pc : HandshakePc} (hlog : LogInv st log)
  (hworker : st'.worker = st.worker) (hgarbage : st'.garbage = st.garbage)
  (htenancy : st'.tenancy = st.tenancy) (hhandshake : st'.handshake = Function.update st.handshake h pc)

include hlog hworker hgarbage htenancy hhandshake

theorem LogInv.keeps (hhanding : pc.handing = (st.handshake h).handing)
    (hchosen : ∀ idx, pc.chosen = some idx → (st.handshake h).chosen = some idx)
    (hlist : st'.connList = st.connList) : LogInv st' log := by
  have hhas : ∀ {v r}, st'.Has v r ↔ st.Has v r := fun {v r} =>
    EpollEngine.has_congr hworker hgarbage htenancy hlist
  have hsame : ∀ i, (st'.handshake i).handing = (st.handshake i).handing := by
    intro i
    rw [hhandshake]
    by_cases hi : i = h
    · rw [hi, Function.update_self, hhanding]
    · rw [Function.update_of_ne hi]
  refine ⟨fun r p hr => ?_, hlog.worker, fun i r hi => ?_, fun v r hr => hlog.has v r (hhas.mp hr),
    hlog.finalized, fun r v i hr => ?_⟩
  · rw [htenancy]
    exact hlog.fresh r p hr
  · rw [hsame] at hi
    obtain ⟨v, hv, hidx⟩ := hlog.handing i r hi
    refine ⟨v, hv, fun idx hc => hidx idx ?_⟩
    rw [hhandshake] at hc
    by_cases hih : i = h
    · subst hih
      rw [Function.update_self] at hc
      exact hchosen idx hc
    · rwa [Function.update_of_ne hih] at hc
  · rw [hsame, hhas]
    exact hlog.tracked r v i hr

/-- The connection goes onto the list of the worker, or is taken off again. -/
theorem LogInv.relists {r : Ref} {idx : ℕ} {l : List ℕ}
    (hbefore : (st.handshake h).handing = some r ∧ (st.handshake h).chosen = some idx)
    (hafter : pc.handing = some r ∧ pc.chosen = some idx) (hcur : st.tenancy r.slot = r.tenancy)
    (hlist : st'.connList = Function.update st.connList idx l)
    (hmem : ∀ s, s ≠ r.slot → (s ∈ l ↔ s ∈ st.connList idx)) : LogInv st' log := by
  obtain ⟨w, hw, hidx⟩ := hlog.handing h r hbefore.1
  obtain rfl := hidx idx hbefore.2
  have hhas : ∀ {v r'}, r' ≠ r → (st'.Has v r' ↔ st.Has v r') := by
    intro v r' hne
    rw [EpollEngine.Has, EpollEngine.Has, hworker, hgarbage, htenancy, hlist]
    refine or_congr (and_congr_right fun hcur' => ?_) Iff.rfl
    have hslot : r'.slot ≠ r.slot := fun heq => hne (Ref.eq_of_current heq hcur hcur')
    by_cases hv : v = idx
    · subst hv
      rw [Function.update_self]
      exact hmem r'.slot hslot
    · rw [Function.update_of_ne hv]
  have hsame : ∀ i, (st'.handshake i).handing = (st.handshake i).handing := by
    intro i
    rw [hhandshake]
    by_cases hi : i = h
    · rw [hi, Function.update_self, hafter.1, hbefore.1]
    · rw [Function.update_of_ne hi]
  refine ⟨fun r' p hr => ?_, hlog.worker, fun i r' hi => ?_, fun v r' hr => ?_, hlog.finalized,
    fun r' v i hr => ?_⟩
  · rw [htenancy]
    exact hlog.fresh r' p hr
  · rw [hsame] at hi
    obtain ⟨v, hv, hc⟩ := hlog.handing i r' hi
    refine ⟨v, hv, fun idx' hidx' => hc idx' ?_⟩
    rw [hhandshake] at hidx'
    by_cases hih : i = h
    · subst hih
      rw [Function.update_self, hafter.2] at hidx'
      rw [hbefore.2, hidx']
    · rwa [Function.update_of_ne hih] at hidx'
  · by_cases hne : r' = r
    · subst hne
      -- `r` itself can only have come onto the list of `idx`
      by_cases hv : v = idx
      · exact ⟨h, hv ▸ hw⟩
      · refine hlog.has v r' ?_
        rw [EpollEngine.Has, hworker, hgarbage, htenancy, hlist, Function.update_of_ne hv] at hr
        exact hr
    · exact hlog.has v r' ((hhas hne).mp hr)
  · by_cases hne : r' = r
    · subst hne
      rw [hw] at hr
      cases hr
      rw [hsame]
      exact Or.inl hbefore.1
    · rw [hsame, hhas hne]
      exact hlog.tracked r' v i hr

theorem LogInv.drops {r : Ref} {log' : HandoffLog} (hbefore : (st.handshake h).handing = some r)
    (hafter : pc.handing = none) (hlist : st'.connList = st.connList)
    (hhanded : log'.handed = log.handed)
    (hfinalized : ∀ p, p ∈ log'.finalized → p ∈ log.finalized ∨ p = (r, .handshake h))
    (hgrows : ∀ p ∈ log.finalized, p ∈ log'.finalized)
    (hplace : ∀ w, log.handed r = some (w, h) → (∀ idx, (st.handshake h).chosen = some idx → idx = w) →
      st.Has w r ∨ (r, .handshake h) ∈ log'.finalized) :
    LogInv st' log' := by
  obtain ⟨w, hw, hidx⟩ := hlog.handing h r hbefore
  have hhas : ∀ {v r}, st'.Has v r ↔ st.Has v r := fun {v r} =>
    EpollEngine.has_congr hworker hgarbage htenancy hlist
  refine ⟨fun r' p hr => ?_, fun r' v i hr => hlog.worker r' v i (hhanded ▸ hr), fun i r' hi => ?_,
    fun v r' hr => ?_, fun r' a hr => ?_, fun r' v i hr => ?_⟩
  · rw [htenancy]
    exact hlog.fresh r' p (hhanded ▸ hr)
  · rw [hhandshake] at hi ⊢
    rw [hhanded]
    by_cases hih : i = h
    · subst hih
      rw [Function.update_self, hafter] at hi
      cases hi
    · rw [Function.update_of_ne hih] at hi ⊢
      exact hlog.handing i r' hi
  · rw [hhanded]
    exact hlog.has v r' (hhas.mp hr)
  · rw [hhanded]
    rcases hfinalized _ hr with hold | hnew
    · exact hlog.finalized r' a hold
    · cases hnew
      exact ⟨w, h, hw, Or.inr rfl⟩
  · rw [hhanded] at hr
    rw [hhas]
    rcases hlog.tracked r' v i hr with hpc | hplaced | hfin | hfin
    · by_cases hih : i = h
      · subst hih
        rw [hbefore, Option.some.injEq] at hpc
        subst hpc
        rw [hw] at hr
        cases hr
        rcases hplace w hw hidx with hgiven | hdone
        · exact Or.inr (Or.inl hgiven)
        · exact Or.inr (Or.inr (Or.inr hdone))
      · rw [hhandshake, Function.update_of_ne hih]
        exact Or.inl hpc
    · exact Or.inr (Or.inl hplaced)
    · exact Or.inr (Or.inr (Or.inl (hgrows _ hfin)))
    · exact Or.inr (Or.inr (Or.inr (hgrows _ hfin)))

end Handshake

theorem LogInv.stepHandshake {log : HandoffLog} {h : ℕ} {ok : Bool} (hlog : LogInv st log)
    (hinv : EngineInv .tcp st) (hstep : st.handshakeStep .tcp h ok = some st') :
    LogInv st' (recordHandoff st (.handshake h ok) log) := by
  obtain ⟨hworker, hgarbage, htenancy, pc, hhandshake, hhands⟩ := handshakeStep_hands hinv hstep
  cases hhands with
  | keeps hhanding hchosen hlist hpc =>
      rw [recordHandoff_handshake hpc]
      exact hlog.keeps hworker hgarbage htenancy hhandshake hhanding hchosen hlist
  | enlists r idx roles hpc hpc' hcur hlist =>
      rw [recordHandoff_handshake (by simp [hpc])]
      refine hlog.relists hworker hgarbage htenancy hhandshake (by simp [hpc, HandshakePc.handing,
        HandshakePc.chosen]) (by simp [hpc', HandshakePc.handing, HandshakePc.chosen]) hcur hlist
        fun s hs => ?_
      simp [hs]
  | withdraws r idx roles hpc hpc' hcur hlist =>
      rw [recordHandoff_handshake (by simp [hpc])]
      refine hlog.relists hworker hgarbage htenancy hhandshake (by simp [hpc, HandshakePc.handing,
        HandshakePc.chosen]) (by simp [hpc', HandshakePc.handing, HandshakePc.chosen]) hcur hlist
        fun s hs => List.mem_erase_of_ne hs
  | gives r idx roles hpc hpc' hcur hmem hlist =>
      rw [recordHandoff_handshake (by simp [hpc])]
      refine hlog.drops hworker hgarbage htenancy hhandshake (by rw [hpc]; rfl) hpc' hlist rfl
        (fun p hp => Or.inl hp) (fun p hp => hp) fun w hw hidx => Or.inl (Or.inl ⟨hcur, ?_⟩)
      exact hidx idx (by rw [hpc]; rfl) ▸ hmem
  | finishes r hpc hpc' hcur hlist =>
      have hcurrent : st.current r.slot = r := by rw [EpollEngine.current, hcur]
      have hrecord : recordHandoff st (.handshake h ok) log =
          { log with finalized := log.finalized ++ [(r, .handshake h)] } := by
        simp only [recordHandoff, hpc, hcurrent]
      rw [hrecord]
      refine hlog.drops hworker hgarbage htenancy hhandshake (by rw [hpc]; rfl) hpc' hlist rfl
        (fun p hp => ?_) (fun p hp => List.mem_append_left _ hp) fun w _ _ =>
        Or.inr (List.mem_append_right _ List.mem_cons_self)
      exact (List.mem_append.mp hp).imp_right List.mem_singleton.mp

/-! ### Whole runs -/

theorem LogInv.handoff {log : HandoffLog} {s h idx : ℕ} {rest : List ℕ} {roles : List FdRole}
    {stores : List Store} {c : Conn} (hlog : LogInv st log) (hinv : EngineInv .tcp st)
    (hfree : st.freeSlots = s :: rest) (hidle : st.handshake h = .idle)
    (hidx : idx < Engine.tcp.workerCount) :
    LogInv { (st.setConn s c).setHandshake h (.prepare ⟨s, st.tenancy s + 1⟩ idx roles stores) with
        freeSlots := rest
        tenancy := Function.update st.tenancy s (st.tenancy s + 1) }
      { log with handed := Function.update log.handed ⟨s, st.tenancy s + 1⟩ (some (idx, h)) } := by
  obtain ⟨own, hb, -, ha⟩ := hinv
  have hown := (hb.free.2 s (hfree ▸ List.mem_cons_self)).1
  have hold : ∀ {r p}, log.handed r = some p → r ≠ ⟨s, st.tenancy s + 1⟩ := by
    rintro r p hr rfl
    exact Nat.not_succ_le_self _ (hlog.fresh _ p hr)
  have hlist : ∀ v, s ∉ st.connList v := by
    intro v hmem
    have := ((hb.lists v).2 s).mp hmem
    simp [hown] at this
  have hhas : ∀ {v r}, (EpollEngine.Has { (st.setConn s c).setHandshake h
      (.prepare ⟨s, st.tenancy s + 1⟩ idx roles stores) with
        freeSlots := rest
        tenancy := Function.update st.tenancy s (st.tenancy s + 1) } v r) ↔ st.Has v r := by
    intro v r
    refine or_congr (and_congr_left fun hmem => ?_) Iff.rfl
    have hne : r.slot ≠ s := fun heq => hlist v (heq ▸ hmem)
    dsimp only
    rw [Function.update_of_ne hne]
  refine ⟨fun r p hr => ?_, fun r v i hr => ?_, fun i r hi => ?_, fun v r hr => ?_, fun r a hr => ?_,
    fun r v i hr => ?_⟩
  · dsimp only at hr ⊢
    by_cases hnew : r = ⟨s, st.tenancy s + 1⟩
    · subst hnew
      exact Nat.le_of_eq (Function.update_self s (st.tenancy s + 1) st.tenancy).symm
    · rw [Function.update_of_ne hnew] at hr
      refine Nat.le_trans (hlog.fresh r p hr) ?_
      rw [Function.update_apply]
      split
      case isTrue heq => rw [heq]; exact Nat.le_succ _
      case isFalse => exact Nat.le_refl _
  · dsimp only at hr
    by_cases hnew : r = ⟨s, st.tenancy s + 1⟩
    · subst hnew
      rw [Function.update_self] at hr
      cases hr
      exact hidx
    · rw [Function.update_of_ne hnew] at hr
      exact hlog.worker r v i hr
  · dsimp only [EpollEngine.setHandshake, EpollEngine.setConn] at hi ⊢
    by_cases hih : i = h
    · subst hih
      rw [Function.update_self] at hi ⊢
      obtain rfl : (⟨s, st.tenancy s + 1⟩ : Ref) = r := Option.some.inj hi
      exact ⟨idx, Function.update_self .., fun _ hc => (Option.some.inj hc).symm⟩
    · rw [Function.update_of_ne hih] at hi ⊢
      obtain ⟨v, hv, hc⟩ := hlog.handing i r hi
      exact ⟨v, (Function.update_of_ne (hold hv) _ _).trans hv, hc⟩
  · obtain ⟨i, hi⟩ := hlog.has v r (hhas.mp hr)
    exact ⟨i, (Function.update_of_ne (hold hi) _ _).trans hi⟩
  · obtain ⟨v, i, hv, ha⟩ := hlog.finalized r a hr
    exact ⟨v, i, (Function.update_of_ne (hold hv) _ _).trans hv, ha⟩
  · rw [hhas]
    dsimp only [EpollEngine.setHandshake, EpollEngine.setConn] at hr ⊢
    by_cases hnew : r = ⟨s, st.tenancy s + 1⟩
    · subst hnew
      rw [Function.update_self] at hr
      cases hr
      rw [Function.update_self]
      exact Or.inl rfl
    · rw [Function.update_of_ne hnew] at hr
      refine (hlog.tracked r v i hr).imp_left fun hpc => ?_
      have hih : i ≠ h := by
        rintro rfl
        rw [hidle] at hpc
        cases hpc
      rwa [Function.update_of_ne hih]

theorem LogInv.restart {log : HandoffLog} (hlog : LogInv st log) (hstop : StopOk st)
    (hended : st.AllEnded .tcp) (hidle : ∀ h, st.handshake h = .idle) :
    LogInv (st.slotsInit .tcp) log := by
  have hnone : ∀ v r, ¬ (st.slotsInit .tcp).Has v r := by
    rintro v r (⟨-, hr⟩ | hr)
    · exact absurd hr List.not_mem_nil
    · exact absurd hr List.not_mem_nil
  refine ⟨fun r p hr => Nat.le_trans (hlog.fresh r p hr) ?_, hlog.worker, nofun,
    fun v r hr => absurd hr (hnone v r), hlog.finalized, fun r v i hr => ?_⟩
  · simp only [EpollEngine.slotsInit]
    split <;> omega
  · have hexit := hended.1 v (hlog.worker r v i hr)
    rcases hlog.tracked r v i hr with hpc | hv | hfin
    · rw [hidle i] at hpc
      cases hpc
    · rcases hv with ⟨-, hmem⟩ | hmem
      · rw [hstop.empty v (by rw [hexit]; trivial)] at hmem
        exact absurd hmem List.not_mem_nil
      · rw [hexit] at hmem
        exact absurd hmem List.not_mem_nil
    · exact Or.inr (Or.inr hfin)

theorem LogInv.step {log : HandoffLog} {ev : EngineEvent} (hlog : LogInv st log)
    (hinv : RunInv .tcp st) (hstop : StopOk st) (hcond : ActsOnOwn .tcp st ev)
    (hstep : engineStep .tcp st ev = some st') : LogInv st' (recordHandoff st ev log) := by
  cases ev with
  | quit =>
      obtain rfl := Option.some.inj hstep
      exact ⟨hlog.fresh, hlog.worker, hlog.handing, hlog.has, hlog.finalized, hlog.tracked⟩
  | restart =>
      simp only [engineStep] at hstep
      split at hstep
      case isTrue hended =>
        obtain rfl := Option.some.inj hstep
        refine hlog.restart hstop hended fun h => ?_
        by_contra hbusy
        exact hbusy (hended.2 h (hinv.threads h hbusy))
      case isFalse => cases hstep
  | handoff h idx roles =>
      simp only [engineStep, EpollEngine.handoffStep] at hstep
      split at hstep
      case isFalse => cases hstep
      case isTrue hready =>
        split at hstep
        case h_1 hfree =>
          obtain rfl := Option.some.inj hstep
          simpa [recordHandoff, hfree] using hlog
        case h_2 s rest hfree =>
          obtain rfl := Option.some.inj hstep
          have hrecord : recordHandoff st (.handoff h idx roles) log = { log with
              handed := Function.update log.handed ⟨s, st.tenancy s + 1⟩ (some (idx, h)) } := by
            simp only [recordHandoff, hfree]
          rw [hrecord]
          exact hlog.handoff hinv.engine hfree hready.1 hready.2.2.1
  | handshake h ok => exact hlog.stepHandshake hinv.engine hstep
  | worker w choice batch =>
      simp only [engineStep] at hstep
      split at hstep
      · exact hlog.stepWorker hinv.engine (hinv.delivered w) hcond hstep
      · cases hstep

/-- No connection is stranded: the list of a worker that has returned is empty, nothing is registered
with its epoll descriptor any more, and the connections handed to it have been finalized by it or by
the thread that was to register them; nobody else finalizes them. -/
structure NotStranded (st : EpollEngine) (log : HandoffLog) : Prop where
  empty : ∀ w, st.worker w = .exited → st.connList w = []
  registered : ∀ h r idx roles, st.handshake h = .add r idx roles → st.worker idx ≠ .exited
  finalized : ∀ r w h, log.handed r = some (w, h) → st.worker w = .exited →
    (st.handshake h).handing ≠ some r →
      (r, .worker w) ∈ log.finalized ∨ (r, .handshake h) ∈ log.finalized
  own : ∀ r a, (r, a) ∈ log.finalized →
    ∃ w h, log.handed r = some (w, h) ∧ (a = .worker w ∨ a = .handshake h)

/-- In every run of the TCP engine whose steps meet the condition no connection is stranded. -/
theorem no_connection_stranded {evs : List EngineEvent} {log : HandoffLog}
    (hmeets : Meets (engineStep .tcp) (ActsOnOwn .tcp) (EpollEngine.init .tcp) evs)
    (hrun : run (record (engineStep .tcp) recordHandoff) (EpollEngine.init .tcp, .empty) evs =
      some (st, log)) : NotStranded st log := by
  obtain ⟨-, hstop, hlog⟩ := record_invariant_of_meets
    (P := fun st log => RunInv .tcp st ∧ StopOk st ∧ LogInv st log)
    (fun _ _ _ _ h hcond hstep => ⟨h.1.step hcond hstep, h.2.1.step h.1.engine hstep,
      h.2.2.step h.1 h.2.1 hcond hstep⟩)
    ⟨RunInv.init .tcp, StopOk.init .tcp, LogInv.init⟩ hmeets hrun
  refine ⟨fun w hw => hstop.empty w (by rw [hw]; trivial), fun h r idx roles hpc =>
    hstop.noLateAdd hpc, fun r w h hr hw hpc => ?_, hlog.finalized⟩
  rcases hlog.tracked r w h hr with h' | (⟨-, hmem⟩ | hmem) | hfin
  · exact absurd h' hpc
  · rw [hstop.empty w (by rw [hw]; trivial)] at hmem
    exact absurd hmem List.not_mem_nil
  · rw [hw] at hmem
    exact absurd hmem List.not_mem_nil
  · exact hfin

/-- Worker 0 has unreferenced its connection, and leaves its loop by the shutdown pipe. -/
def exitCleanly : List EngineEvent :=
  List.flatten [firstTurn, handOver 1 0, [.worker 0 true [], .worker 0 true [0]],
    List.replicate 12 (.worker 0 true [])]

theorem no_connection_stranded_exitCleanly : ∃ st log,
    run (record (engineStep .tcp) recordHandoff) (EpollEngine.init .tcp, .empty) exitCleanly =
      some (st, log) ∧ st.worker 0 = .exited ∧ NotStranded st log := by
  obtain ⟨st, hst, hexit⟩ := Option.map_eq_some_iff.mp
    (by decide +kernel : (run (engineStep .tcp) (EpollEngine.init .tcp) exitCleanly).map
      (fun st => st.worker 0) = some .exited)
  obtain ⟨log, hlog⟩ := exists_record recordHandoff HandoffLog.empty hst
  exact ⟨st, log, hlog, hexit, no_connection_stranded (by decide +kernel) hlog⟩

/-- Worker 0 leaves its loop with an old pointer in its bucket. Thread 1 is filling in the slot, and
loses it to that pointer; thread 2 gets the slot, and thread 1 is refused and unreferences. -/
def exitRaces : List EngineEvent :=
  List.flatten [firstTurn, [.quit, .handoff 1 0 [.client, .target]],
    List.replicate 5 (.handshake 1 true), List.replicate 11 (.worker 0 true []),
    [.handoff 2 0 [.client, .target]], List.replicate 10 (.handshake 2 true),
    List.replicate 14 (.handshake 1 true)]

/-- The connection of thread 2 is finalized by thread 1 before it could be registered or refused. -/
theorem finalized_by_other_thread : ∃ st log,
    run (record (engineStep .tcp) recordHandoff) (EpollEngine.init .tcp, .empty) exitRaces =
      some (st, log) ∧ ¬ NotStranded st log := by
  obtain ⟨⟨st, log⟩, hst, hlog⟩ := Option.map_eq_some_iff.mp
    (by decide +kernel : (run (record (engineStep .tcp) recordHandoff)
      (EpollEngine.init .tcp, .empty) exitRaces).map
        (fun p => (p.2.handed ⟨1087, 3⟩, p.2.finalized)) =
          some (some (0, 2),
            [(⟨1087, 1⟩, .worker 0), (⟨1087, 2⟩, .worker 0), (⟨1087, 3⟩, .handshake 1)]))
  obtain ⟨hhanded, hfinalized⟩ := Prod.mk.inj hlog
  refine ⟨st, log, hst, fun h => ?_⟩
  obtain ⟨w, i, hw, ha⟩ := h.own ⟨1087, 3⟩ (.handshake 1) (by
    dsimp only at hfinalized
    rw [hfinalized]
    simp)
  obtain ⟨rfl, rfl⟩ : 0 = w ∧ 2 = i := by simpa using hhanded.symm.trans hw
  simp at ha

end FiveGProxy
