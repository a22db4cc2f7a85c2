import FiveGProxy.Slots.Collect

/-!
# One unreference for each tenancy

`handoff_to_worker` gives a connection one reference, and every path is meant to drop it exactly
once. A slot is reused by the next connection, so a second `conn_unref` hits another connection. It
happens when a worker leaves its loop because `server_running` has become 0 (the bucket of the last
turn is unreferenced again), when a handshake thread sets `registered` after its connection is gone,
and in the other cases that `ActsOnOwn` excludes.
-/

namespace FiveGProxy

open Steps

variable {e : Engine} {st st' : EpollEngine}

/-! ### What the steps leave alone -/

theorem handshakeStep_same {h : ℕ} {ok : Bool} (hstep : st.handshakeStep e h ok = some st') :
    st.handshake h ≠ .idle ∧ st'.worker = st.worker ∧ st.issued ⊆ st'.issued ∧
      st'.tenancy = st.tenancy ∧ ∃ pc, st'.handshake = Function.update st.handshake h pc := by
  have hsame : st.issued ⊆ st.issued := List.Subset.refl _
  have hbusy : ∀ {pc : HandshakePc}, st.handshake h = pc → pc ≠ .idle → st.handshake h ≠ .idle :=
    fun hpc hne => hpc ▸ hne
  cases EpollEngine.handshake_transition hstep with
  | add r idx role roles hpc =>
      exact ⟨hbusy hpc (by rintro ⟨⟩), rfl, List.subset_append_left _ _, rfl, _, rfl⟩
  | unref r u st₁ u' hpc hunref =>
      have hframe := EpollEngine.unref_frame hunref
      exact ⟨hbusy hpc (by rintro ⟨⟩), hframe.worker, hframe.issued ▸ hsame, hframe.tenancy, _,
        congrArg (Function.update · h _) hframe.handshake⟩
  | finalized r u st₁ hpc hunref =>
      have hframe := EpollEngine.unref_frame hunref
      exact ⟨hbusy hpc (by rintro ⟨⟩), hframe.worker, hframe.issued ▸ hsame, hframe.tenancy, _,
        congrArg (Function.update · h _) hframe.handshake⟩
  | _ =>
      have hpc := ‹st.handshake h = _›
      exact ⟨hbusy hpc (by rintro ⟨⟩), rfl, hsame, rfl, _, rfl⟩

/-- A step of a worker hands out no identifier and acquires no slot; what the worker still has to
handle has been delivered to it. -/
theorem workerStep_same {w : ℕ} {choice : Bool} {batch : List (BitVec 64)}
    (hd : (st.worker w).Delivered e st.issued)
    (hstep : st.workerStep e w choice batch = some st') :
    st'.handshake = st.handshake ∧ st'.issued = st.issued ∧ st'.tenancy = st.tenancy ∧
      ∃ pc, st'.worker = Function.update st.worker w pc ∧ pc.Delivered e st.issued := by
  have hnext : ∀ {pc : WorkerPc}, st.worker w = pc → pc.Delivered e st.issued := fun hpc => hpc ▸ hd
  cases EpollEngine.worker_transition hstep with
  | delivered hpc hbatch => exact ⟨rfl, rfl, rfl, _, rfl, hbatch.2, (by rintro _ _ _ _ ⟨⟩)⟩
  | dnsWake raw rest hpc | badSlot raw rest hpc =>
      exact ⟨rfl, rfl, rfl, _, rfl, (hnext hpc).next (List.subset_cons_self raw rest)
        (by rintro _ _ _ _ ⟨⟩)⟩
  | startCheck raw rest hpc hzero hwake =>
      have hevents := hnext hpc
      refine ⟨rfl, rfl, rfl, _, rfl, fun i hi => hevents.1 i (List.mem_cons_of_mem raw hi), ?_⟩
      rintro _ _ _ _ ⟨⟩
      rcases hevents.1 raw List.mem_cons_self with h | h | h
      · exact absurd h hzero
      · exact absurd ⟨h.1, by simp [udpEventIsDnsWake, h.2]⟩ hwake
      · exact h
  | readField raw f todo seen rest hpc =>
      have hcheck := hnext hpc
      refine ⟨rfl, rfl, rfl, _, rfl, hcheck.1, ?_⟩
      rintro _ _ _ _ ⟨⟩
      exact hcheck.2 raw _ _ _ rfl
  | pass raw seen rest hpc | stale raw seen rest hpc =>
      exact ⟨rfl, rfl, rfl, _, rfl, (hnext hpc).next (List.Subset.refl _) (by rintro _ _ _ _ ⟨⟩)⟩
  | fatal s rest hpc | served s rest hpc | alreadyClosed s rest hpc | lose s rest hpc
  | close s rest hpc =>
      exact ⟨rfl, rfl, rfl, _, rfl, (hnext hpc).next (List.Subset.refl _) (by rintro _ _ _ _ ⟨⟩)⟩
  | unref r rest u k st₁ u' hpc hunref =>
      have hframe := EpollEngine.unref_frame hunref
      refine ⟨hframe.handshake, hframe.issued, hframe.tenancy, _,
        congrArg (Function.update · w _) hframe.worker, ?_⟩
      cases u' <;> exact WorkerPc.delivered_of_nil rfl (by rintro _ _ _ _ ⟨⟩)
  | _ =>
      -- the worker is not between two events of a batch afterwards
      exact ⟨rfl, rfl, rfl, _, rfl, WorkerPc.delivered_of_nil rfl (by rintro _ _ _ _ ⟨⟩)⟩

/-! ### Whole runs -/

/-- What a step of a handshake thread may not do: set `registered` on a slot that has passed to
another connection. -/
def HandshakeActsOnOwn (st : EpollEngine) : HandshakePc → Prop
  | .register r => st.tenancy r.slot = r.tenancy
  | _ => True

def ActsOnOwn (e : Engine) (st : EpollEngine) : EngineEvent → Prop
  | .handshake h _ => HandshakeActsOnOwn st (st.handshake h)
  | .worker w choice _ => WorkerActsOnOwn e st w choice (st.worker w)
  | .quit | .restart | .handoff .. => True

instance (st : EpollEngine) (pc : HandshakePc) : Decidable (HandshakeActsOnOwn st pc) :=
  match pc with
  | .register _ => inferInstanceAs (Decidable (_ = _))
  | .idle | .prepare .. | .setup .. | .lock .. | .locked .. | .add .. | .rollback .. | .stamp _
  | .unref .. =>
      inferInstanceAs (Decidable True)

instance (e : Engine) (st : EpollEngine) (w : ℕ) (choice : Bool) (pc : WorkerPc) :
    Decidable (WorkerActsOnOwn e st w choice pc) :=
  match pc with
  | .loopTest => inferInstanceAs (Decidable (_ → _))
  | .check _ [] _ _ => inferInstanceAs (Decidable (_ → _))
  | .fatal _ _ => inferInstanceAs (Decidable (_ → _ → _))
  | .scan (some _) => inferInstanceAs (Decidable (_ → _ → _))
  | .check _ (_ :: _) _ _ | .scan none | .wait | .events _ | .process .. | .scanLock | .relock ..
  | .unref .. | .stop | .drainLock | .drain _ | .exited => inferInstanceAs (Decidable True)

instance (e : Engine) (st : EpollEngine) (ev : EngineEvent) : Decidable (ActsOnOwn e st ev) :=
  match ev with
  | .handshake h _ => inferInstanceAs (Decidable (HandshakeActsOnOwn st (st.handshake h)))
  | .worker w choice _ => inferInstanceAs (Decidable (WorkerActsOnOwn e st w choice (st.worker w)))
  | .quit | .restart | .handoff .. => inferInstanceAs (Decidable True)

structure RunInv (e : Engine) (st : EpollEngine) : Prop where
  engine : EngineInv e st
  delivered : ∀ w, (st.worker w).Delivered e st.issued
  threads : ∀ h, st.handshake h ≠ .idle → h < handshakePoolSize

theorem nodup_initialSlots (e : Engine) : ((List.range e.slotCount).reverse).Nodup :=
  List.nodup_reverse.mpr List.nodup_range

theorem RunInv.init (e : Engine) : RunInv e (EpollEngine.init e) where
  engine := by
    refine ⟨fun _ => .free, ?_, ⟨fun s => Or.inl rfl, (by rintro _ _ _ ⟨⟩)⟩, fun a => ?_⟩
    · exact
        { slots := fun _ => rfl
          refs := fun _ => Int.le_refl 0
          bound := fun _ h => absurd rfl h
          lists := fun w => ⟨List.nodup_nil, fun s => by simp [EpollEngine.init]⟩
          free := ⟨nodup_initialSlots e, fun s hs => ⟨rfl, by simpa [EpollEngine.init] using hs⟩⟩
          log := List.nodup_nil
          logged := by rintro _ ⟨⟩
          issued := by rintro _ ⟨⟩
          verdicts := (by rintro _ ⟨⟩) }
    · cases a with
      | worker w =>
          exact ⟨List.nodup_nil, (by rintro _ ⟨⟩), (by rintro _ _ _ _ ⟨⟩), (by rintro ⟨⟩),
            fun _ _ h => nomatch h⟩
      | handshake h => exact trivial
  delivered w := WorkerPc.delivered_of_nil rfl (by rintro _ _ _ _ ⟨⟩)
  threads h hne := absurd rfl hne

/-- With no thread filling in a slot, every generation is the current one. -/
theorem RunInv.gens_of_ended (h : RunInv e st) (hended : st.AllEnded e) (s : ℕ) :
    (st.conn s).gen = genOf (st.tenancy s) := by
  obtain ⟨own, -, hp, -⟩ := h.engine
  rcases hp.gens s with hs | ⟨i, hi⟩
  · exact hs
  · by_cases hidle : st.handshake i = .idle
    · rw [hidle] at hi
      exact hi.elim
    · exact absurd (hended.2 i (h.threads i hidle)) hidle

/-- `slots_init` frees every slot; a generation is only touched when it has wrapped to 0. -/
theorem RunInv.restart (h : RunInv e st) (hended : st.AllEnded e) : RunInv e (st.slotsInit e) := by
  obtain ⟨own, hb, -, -⟩ := h.engine
  have hmono : ∀ s, st.tenancy s ≤ (st.slotsInit e).tenancy s := by
    intro s
    simp only [EpollEngine.slotsInit]
    split <;> omega
  refine ⟨⟨fun _ => .free, ?_, ⟨fun s => Or.inl ?_, (by rintro _ _ _ ⟨⟩)⟩, fun a => ?_⟩,
    fun w => WorkerPc.delivered_of_nil rfl (by rintro _ _ _ _ ⟨⟩), fun h hne => absurd rfl hne⟩
  · exact
      { slots := fun _ => rfl
        refs := hb.refs
        bound := fun _ h => absurd rfl h
        lists := fun w => ⟨List.nodup_nil, fun s => by simp [EpollEngine.slotsInit]⟩
        free := ⟨nodup_initialSlots e, fun s hs => ⟨rfl, by simpa [EpollEngine.slotsInit] using hs⟩⟩
        log := hb.log
        logged := fun u hu => by
          obtain ⟨h1, h2, -⟩ := hb.logged u hu
          exact ⟨h1, Nat.le_trans h2 (hmono _), fun _ => Or.inl rfl⟩
        issued := fun i hi => (hb.issued i hi).mono hmono
        verdicts := fun v hv => (hb.verdicts v hv).mono hmono (List.Subset.refl _) }
  · have hgen := h.gens_of_ended hended s
    simp only [EpollEngine.slotsInit]
    split
    case isTrue hzero =>
      rw [genOf_succ, ← hgen, hzero]
      rfl
    case isFalse => exact hgen
  · cases a with
    | worker w =>
        exact ⟨List.nodup_nil, (by rintro _ ⟨⟩), (by rintro _ _ _ _ ⟨⟩), (by rintro ⟨⟩),
          fun _ _ h => nomatch h⟩
    | handshake h => exact trivial

theorem RunInv.step {ev : EngineEvent} (h : RunInv e st) (hcond : ActsOnOwn e st ev)
    (hstep : engineStep e st ev = some st') : RunInv e st' := by
  cases ev with
  | quit =>
      obtain rfl := Option.some.inj hstep
      obtain ⟨own, hb, hp, ha⟩ := h.engine
      refine ⟨⟨own, { hb with }, { hp with }, fun b => ?_⟩, h.delivered, h.threads⟩
      exact (ha b).frame (.of_eq rfl rfl fun _ hi => hi) (fun _ _ => ⟨rfl, rfl⟩) fun _ _ => rfl
  | restart =>
      simp only [engineStep] at hstep
      split at hstep
      case isTrue hended =>
        obtain rfl := Option.some.inj hstep
        exact h.restart hended
      case isFalse => cases hstep
  | handoff i idx roles =>
      have hinv := handoffStep_inv h.engine hstep
      simp only [engineStep, EpollEngine.handoffStep] at hstep
      split at hstep
      case isFalse => cases hstep
      case isTrue hready =>
        split at hstep
        · obtain rfl := Option.some.inj hstep
          exact h
        · obtain rfl := Option.some.inj hstep
          refine ⟨hinv, h.delivered, fun j hj => ?_⟩
          by_cases hij : j = i
          · exact hij ▸ hready.2.1
          · exact h.threads j (by simpa [EpollEngine.setHandshake, EpollEngine.setConn, hij] using hj)
  | handshake i ok =>
      obtain ⟨hbusy, hworker, hissued, -, pc, hhandshake⟩ := handshakeStep_same hstep
      refine ⟨handshakeStep_inv h.engine (fun r hr => ?_) hstep, fun w => ?_, fun j hj => ?_⟩
      · have hs : HandshakeActsOnOwn st (st.handshake i) := hcond
        rwa [hr] at hs
      · rw [hworker]
        exact (h.delivered w).mono hissued
      · by_cases hij : j = i
        · exact h.threads j (hij ▸ hbusy)
        · exact h.threads j (by simpa [hhandshake, hij] using hj)
  | worker w choice batch =>
      simp only [engineStep] at hstep
      split at hstep
      case isFalse => cases hstep
      case isTrue =>
        obtain ⟨hhandshake, hissued, -, pc, hworker, hpc⟩ := workerStep_same (h.delivered w) hstep
        refine ⟨workerStep_inv h.engine (h.delivered w) hcond hstep, fun v => ?_, ?_⟩
        · rw [hworker, hissued]
          by_cases hv : v = w
          · subst hv
            rwa [Function.update_self]
          · rw [Function.update_of_ne hv]
            exact h.delivered v
        · rw [hhandshake]
          exact h.threads

theorem RunInv.run {evs : List EngineEvent}
    (hmeets : Meets (engineStep e) (ActsOnOwn e) (EpollEngine.init e) evs)
    (hrun : run (engineStep e) (EpollEngine.init e) evs = some st) : RunInv e st :=
  run_invariant_of_meets (P := RunInv e) (fun _ _ _ h hcond hstep => h.step hcond hstep)
    (RunInv.init e) hmeets hrun

/-! ### The reference is dropped once -/

/-- No connection is unreferenced twice, no call of `conn_unref` reaches a later connection of the
slot, and no count is negative. -/
structure UnrefsOnce (st : EpollEngine) : Prop where
  once : (st.unrefs.map UnrefCall.ref).Nodup
  own : ∀ u ∈ st.unrefs, u.appliedTo = u.ref.tenancy
  refs : ∀ s, 0 ≤ (st.conn s).refs

/-- In every run whose steps meet the condition each connection is unreferenced at most once, and
nothing else is. -/
theorem unref_discipline {evs : List EngineEvent}
    (hmeets : Meets (engineStep e) (ActsOnOwn e) (EpollEngine.init e) evs)
    (hrun : run (engineStep e) (EpollEngine.init e) evs = some st) : UnrefsOnce st := by
  obtain ⟨own, hb, -, -⟩ := (RunInv.run hmeets hrun).engine
  exact ⟨hb.log, fun u hu => (hb.logged u hu).1, hb.refs⟩

/-- Handshake thread `h` hands a connection to worker `idx`, and nothing fails. -/
def handOver (h idx : ℕ) : List EngineEvent :=
  .handoff h idx [.client, .target] :: List.replicate 19 (.handshake h true)

/-- Worker 0 gets one event, which is fatal, and unreferences the connection. -/
def fatalTurn (raw : BitVec 64) : List EngineEvent :=
  List.flatten [[.worker 0 true [], .worker 0 true [raw]], List.replicate 10 (.worker 0 true []),
    [.worker 0 false []], List.replicate 6 (.worker 0 true [])]

def firstTurn : List EngineEvent := handOver 0 0 ++ fatalTurn (epKey 2 1087)

theorem unref_discipline_firstTurn :
    ∃ st, run (engineStep .tcp) (EpollEngine.init .tcp) firstTurn = some st ∧ UnrefsOnce st := by
  obtain ⟨st, hst⟩ := Option.isSome_iff_exists.mp
    (by decide +kernel : (run (engineStep .tcp) (EpollEngine.init .tcp) firstTurn).isSome = true)
  exact ⟨st, hst, unref_discipline (by decide +kernel) hst⟩

/-- Worker 0 gets the slot again, and with the event of the new connection an old one. -/
def secondTenancy : List EngineEvent :=
  List.flatten [firstTurn, handOver 1 0,
    [.worker 0 true [], .worker 0 true [epKey 2 1087, epKey 3 1087]],
    List.replicate 16 (.worker 0 true [])]

/-- The slot passes to a connection of worker 1; the engine is stopped, and worker 0 leaves its loop
through the test of `server_running`. -/
def exitWithGarbage : List EngineEvent :=
  firstTurn ++ handOver 1 1 ++ (.quit :: List.replicate 6 (.worker 0 true []))

/-- The second call for the first connection takes the reference of the second one. -/
theorem exit_unrefs_again : ∃ st,
    run (engineStep .tcp) (EpollEngine.init .tcp) exitWithGarbage = some st ∧
      st.unrefs = [⟨⟨1087, 1⟩, 1⟩, ⟨⟨1087, 1⟩, 2⟩] ∧ ¬ UnrefsOnce st := by
  obtain ⟨st, hst, hlog⟩ := Option.map_eq_some_iff.mp
    (by decide +kernel :
      (run (engineStep .tcp) (EpollEngine.init .tcp) exitWithGarbage).map EpollEngine.unrefs =
        some [⟨⟨1087, 1⟩, 1⟩, ⟨⟨1087, 1⟩, 2⟩])
  refine ⟨st, hst, hlog, fun h => ?_⟩
  have hown := h.own ⟨⟨1087, 1⟩, 2⟩ (by simp [hlog])
  exact absurd hown (by decide)

end FiveGProxy
