import FiveGProxy.Slots.Discipline

/-!
# Setting up a session

The runs of one handshake thread from `udp_slot_acquire` on: to a session on the list of worker 0, or,
when a buffer cannot be allocated, into `udp_conn_finalize`. The longer runs in which many sessions
are set up one after the other are made of these.
-/

namespace FiveGProxy

open Steps

variable {e : Engine} {st st' : EpollEngine} {h : ℕ}

/-- The steps of thread `h`, up to `slot_release`. -/
def setupStep (e : Engine) (h : ℕ) : Step EpollEngine Bool := fun st ok =>
  match st.handshake h with
  | .unref _ .release => none
  | _ => st.handshakeStep e h ok

theorem setupStep_eq_some {ok : Bool} (hstep : setupStep e h st ok = some st') :
    st.handshakeStep e h ok = some st' ∧ ∀ r, st.handshake h ≠ .unref r .release := by
  unfold setupStep at hstep
  split at hstep
  · cases hstep
  · exact ⟨hstep, ‹∀ r, st.handshake h = .unref r .release → False›⟩

theorem setup_reaches (hreach : Reaches (setupStep e h) st st') : Reaches (engineStep e) st st' :=
  hreach.map id fun _ ok _ hstep => ⟨.handshake h ok, (setupStep_eq_some hstep).1⟩

/-- The parts of the state that the setting up of a session leaves alone. -/
structure SameRest (st st' : EpollEngine) : Prop where
  running : st'.serverRunning = st.serverRunning
  listLock : st'.listLock = st.listLock
  stopping : st'.stopping = st.stopping
  worker : st'.worker = st.worker
  unrefs : st'.unrefs = st.unrefs

theorem SameRest.trans {st₁ st₂ st₃ : EpollEngine} (h₁ : SameRest st₁ st₂) (h₂ : SameRest st₂ st₃) :
    SameRest st₁ st₃ :=
  ⟨h₂.running.trans h₁.running, h₂.listLock.trans h₁.listLock, h₂.stopping.trans h₁.stopping,
    h₂.worker.trans h₁.worker, h₂.unrefs.trans h₁.unrefs⟩

/-- The state behind the section of `udp_slot_acquire`. -/
def handedOff (st : EpollEngine) (h m : ℕ) (rest : List ℕ) : EpollEngine :=
  { (st.setConn m { st.conn m with gen := (st.conn m).gen + 1 }).setHandshake h
      (.prepare ⟨m, st.tenancy m + 1⟩ 0 [.client, .remoteUdp]
        (slotAcquireStores ((st.conn m).gen + 1) ++ handoffStores .udp 0)) with
    freeSlots := rest
    tenancy := Function.update st.tenancy m (st.tenancy m + 1) }

theorem handoffStep_eq {m : ℕ} {rest : List ℕ} (hidle : st.handshake h = .idle)
    (hh : h < handshakePoolSize) (hfree : st.freeSlots = m :: rest) :
    st.handoffStep .udp h 0 [.client, .remoteUdp] = some (handedOff st h m rest) := by
  have hready : st.handshake h = .idle ∧ h < handshakePoolSize ∧ 0 < Engine.workerCount .udp ∧
      [FdRole.client, .remoteUdp] ∈ Engine.roleLists .udp := ⟨hidle, hh, by decide⟩
  simp only [EpollEngine.handoffStep, if_pos hready, hfree, handedOff]

theorem stores_reach {r : Ref} {idx : ℕ} {roles : List FdRole} {todo : List Store}
    (hpc : st.handshake h = .prepare r idx roles todo) :
    ∃ st', Reaches (setupStep e h) st st' ∧
      st'.handshake = Function.update st.handshake h (.prepare r idx roles []) ∧
      st'.conn = Function.update st.conn r.slot (todo.foldl (Store.apply e r.slot) (st.conn r.slot)) ∧
      st'.freeSlots = st.freeSlots ∧ st'.connList = st.connList ∧ SameRest st st' := by
  induction todo generalizing st with
  | nil =>
      refine ⟨st, .refl st, ?_, (Function.update_eq_self r.slot st.conn).symm, rfl, rfl,
        ⟨rfl, rfl, rfl, rfl, rfl⟩⟩
      rw [← hpc, Function.update_eq_self]
  | cons x todo ih =>
      have hstep : setupStep e h st true =
          some ((st.setConn r.slot (x.apply e r.slot (st.conn r.slot))).setHandshake h
            (.prepare r idx roles todo)) := by
        simp only [setupStep, EpollEngine.handshakeStep, hpc]
      have hnext : ((st.setConn r.slot (x.apply e r.slot (st.conn r.slot))).setHandshake h
          (.prepare r idx roles todo)).handshake h = .prepare r idx roles todo := by
        simp [EpollEngine.setHandshake]
      obtain ⟨st', hreach, hpc', hconn, hfree, hlist, hrest⟩ := ih hnext
      refine ⟨st', (Reaches.single hstep).trans hreach, ?_, ?_, hfree, hlist,
        ⟨hrest.1, hrest.2, hrest.3, hrest.4, hrest.5⟩⟩
      · rw [hpc']
        simp [EpollEngine.setHandshake, EpollEngine.setConn]
      · rw [hconn]
        simp [EpollEngine.setHandshake, EpollEngine.setConn]

theorem handedOff_reach (st : EpollEngine) (h m : ℕ) (rest : List ℕ) :
    ∃ st', Reaches (setupStep .udp h) (handedOff st h m rest) st' ∧
      st'.handshake = Function.update st.handshake h
        (.prepare ⟨m, st.tenancy m + 1⟩ 0 [.client, .remoteUdp] []) ∧
      st'.conn = Function.update st.conn m
        ((slotAcquireStores ((st.conn m).gen + 1) ++ handoffStores .udp 0).foldl
          (Store.apply .udp m) { st.conn m with gen := (st.conn m).gen + 1 }) ∧
      st'.freeSlots = rest ∧ st'.connList = st.connList ∧ SameRest st st' := by
  have hpc : (handedOff st h m rest).handshake h =
      .prepare ⟨m, st.tenancy m + 1⟩ 0 [.client, .remoteUdp]
        (slotAcquireStores ((st.conn m).gen + 1) ++ handoffStores .udp 0) :=
    Function.update_self h _ st.handshake
  have hconn : (handedOff st h m rest).conn =
      Function.update st.conn m { st.conn m with gen := (st.conn m).gen + 1 } := rfl
  have hhandshake : (handedOff st h m rest).handshake = Function.update st.handshake h
      (.prepare ⟨m, st.tenancy m + 1⟩ 0 [.client, .remoteUdp]
        (slotAcquireStores ((st.conn m).gen + 1) ++ handoffStores .udp 0)) := rfl
  obtain ⟨st', hreach, hpc', hconn', hfree, hlist, hrest⟩ := stores_reach (e := .udp) hpc
  refine ⟨st', hreach, ?_, ?_, hfree, hlist, ⟨hrest.1, hrest.2, hrest.3, hrest.4, hrest.5⟩⟩
  · rw [hpc', hhandshake, Function.update_idem]
  · rw [hconn', hconn, Function.update_idem, Function.update_self]

/-- The thread puts the session on the list of worker 0, and registers it. -/
theorem register_reach {r : Ref} (hpc : st.handshake h = .prepare r 0 [.client, .remoteUdp] [])
    (hlocks : ∀ w, st.listLock w = none) (hstop : st.stopping 0 = false) :
    ∃ st', Reaches (setupStep .udp h) st st' ∧
      st'.handshake = Function.update st.handshake h .idle ∧
      st'.conn = Function.update st.conn r.slot { st.conn r.slot with registered := true } ∧
      st'.freeSlots = st.freeSlots ∧
      st'.connList = Function.update st.connList 0 (r.slot :: st.connList 0) ∧ SameRest st st' := by
  have hnone : Function.update st.listLock 0 none = st.listLock := by
    rw [← hlocks 0, Function.update_eq_self]
  suffices h : ∃ st', run (setupStep .udp h) st (List.replicate 8 true) = some st' ∧
      st'.handshake = Function.update st.handshake h .idle ∧
      st'.conn = Function.update st.conn r.slot { st.conn r.slot with registered := true } ∧
      st'.freeSlots = st.freeSlots ∧
      st'.connList = Function.update st.connList 0 (r.slot :: st.connList 0) ∧ SameRest st st' by
    obtain ⟨st', hrun, hrest⟩ := h
    exact ⟨st', ⟨_, hrun⟩, hrest⟩
  simp only [List.replicate, run_cons, run_nil, setupStep, hpc, if_true, Option.bind_some,
    EpollEngine.handshakeStep, EpollEngine.setHandshake, EpollEngine.setConn, Function.update_self,
    EpollEngine.setLock, EpollEngine.setList, hlocks, hstop, HandshakePc.added, Function.update_idem,
    Bool.false_eq_true, if_false, hnone]
  exact ⟨_, rfl, rfl, rfl, rfl, rfl, ⟨rfl, rfl, rfl, rfl, rfl⟩⟩

/-- A buffer cannot be allocated, and the thread runs `udp_conn_finalize` up to its `fetch_sub`. -/
theorem finalize_reach {r : Ref} {roles : List FdRole} (hpc : st.handshake h = .prepare r 0 roles [])
    (hrefs : (st.conn r.slot).refs = 1) (hfinalized : (st.conn r.slot).finalized = false)
    (hlocks : ∀ w, st.listLock w = none) :
    ∃ st', Reaches (setupStep .udp h) st st' ∧
      st'.handshake = Function.update st.handshake h (.unref r .release) ∧
      st'.freeSlots = st.freeSlots ∧ st'.listLock = st.listLock ∧ st'.stopping = st.stopping := by
  suffices h : ∃ st', run (setupStep .udp h) st [true, false, true, true, true] = some st' ∧
      st'.handshake = Function.update st.handshake h (.unref r .release) ∧
      st'.freeSlots = st.freeSlots ∧ st'.listLock = st.listLock ∧ st'.stopping = st.stopping by
    obtain ⟨st', hrun, hrest⟩ := h
    exact ⟨st', ⟨_, hrun⟩, hrest⟩
  simp only [run_cons, run_nil, setupStep, hpc, if_true, Option.bind_some, Option.map_some,
    EpollEngine.handshakeStep, EpollEngine.unrefStep, EpollEngine.setHandshake, EpollEngine.setConn,
    EpollEngine.setList, Function.update_self, hlocks, hrefs, hfinalized, Function.update_idem,
    Bool.false_eq_true, if_false]
  exact ⟨_, rfl, rfl, rfl, rfl, rfl⟩

end FiveGProxy
