import FiveGProxy.Slots.Setup

/-!
# No session is forgotten

What a worker takes off its list it has to unreference before it waits again. Between the two a
connection is only in the bucket of the worker, an array of fixed length. The handling of events
cannot fill the bucket, and the scan of a TCP worker empties a full one; the scan of a UDP worker
closes a session that finds the bucket full, and forgets it.
-/

namespace FiveGProxy

open Steps

variable {e : Engine} {st st' : EpollEngine} {w : ℕ}

/-- The connection that the next step of a worker takes off its list while the loop runs. -/
def unlinks (e : Engine) (st : EpollEngine) (choice : Bool) : WorkerPc → List Ref
  | .fatal s _ => if (st.conn s).closed then [] else [st.current s]
  | .scan (some s) => if choice = true ∧ st.Scannable e s then [st.current s] else []
  | _ => []

def recordUnlinked (e : Engine) (st : EpollEngine) (ev : EngineEvent) (log : ℕ → List Ref) :
    ℕ → List Ref :=
  match ev with
  | .worker w choice _ => Function.update log w (log w ++ unlinks e st choice (st.worker w))
  | .quit | .restart | .handoff .. | .handshake .. => log

def LeavesRoom (e : Engine) (st : EpollEngine) (w : ℕ) (choice : Bool) : WorkerPc → Prop
  | .scan (some s) =>
      e = .udp → choice = true → st.Scannable e s → (st.garbage w).length < maxEvents
  | _ => True

def BucketRoom (e : Engine) (st : EpollEngine) : EngineEvent → Prop
  | .worker w choice _ => LeavesRoom e st w choice (st.worker w)
  | .quit | .restart | .handoff .. | .handshake .. => True

instance (e : Engine) (st : EpollEngine) (w : ℕ) (choice : Bool) (pc : WorkerPc) :
    Decidable (LeavesRoom e st w choice pc) :=
  match pc with
  | .scan (some _) => inferInstanceAs (Decidable (_ → _ → _ → _))
  | .loopTest | .wait | .events _ | .check .. | .process .. | .fatal .. | .scanLock | .scan none
  | .relock .. | .unref .. | .stop | .drainLock | .drain _ | .exited =>
      inferInstanceAs (Decidable True)

instance (e : Engine) (st : EpollEngine) (ev : EngineEvent) : Decidable (BucketRoom e st ev) :=
  match ev with
  | .worker w choice _ => inferInstanceAs (Decidable (LeavesRoom e st w choice (st.worker w)))
  | .quit | .restart | .handoff .. | .handshake .. => inferInstanceAs (Decidable True)

/-- There is room in the bucket for every event of the batch that is still to be handled. -/
def WorkerPc.Room (pc : WorkerPc) (garbage : List Ref) : Prop :=
  match pc with
  | .wait => garbage = []
  | .events l => garbage.length + l.length ≤ maxEvents
  | .check _ _ _ l | .process _ l | .fatal _ l => garbage.length + (l.length + 1) ≤ maxEvents
  | _ => True

/-! ### One step -/

/-- A step of worker `w` after which `new` is to be unreferenced as well. -/
structure Collects (st st' : EpollEngine) (w : ℕ) (new : List Ref) : Prop where
  unrefs : st.unrefs ⊆ st'.unrefs
  others : ∀ v, v ≠ w → st'.worker v = st.worker v ∧ st'.garbage v = st.garbage v
  pending : ∀ r ∈ (st.worker w).pending (st.garbage w) ++ new,
    r ∈ st'.unrefs.map UnrefCall.ref ∨ r ∈ (st'.worker w).pending (st'.garbage w)
  room : (st'.worker w).Room (st'.garbage w)

theorem Collects.of_pending {pc : WorkerPc} {g new : List Ref}
    (hworker : st'.worker = Function.update st.worker w pc)
    (hgarbage : st'.garbage = Function.update st.garbage w g) (hunrefs : st'.unrefs = st.unrefs)
    (hpending : (st.worker w).pending (st.garbage w) ++ new ⊆ pc.pending g) (hroom : pc.Room g) :
    Collects st st' w new where
  unrefs u hu := hunrefs ▸ hu
  others v hv := by rw [hworker, hgarbage, Function.update_of_ne hv, Function.update_of_ne hv]; simp
  pending r hr := by
    rw [hworker, hgarbage, Function.update_self, Function.update_self]
    exact Or.inr (hpending hr)
  room := by rwa [hworker, hgarbage, Function.update_self, Function.update_self]

theorem Collects.moves {pc : WorkerPc} {new : List Ref}
    (hworker : st'.worker = Function.update st.worker w pc) (hgarbage : st'.garbage = st.garbage)
    (hunrefs : st'.unrefs = st.unrefs)
    (hpending : (st.worker w).pending (st.garbage w) ++ new ⊆ pc.pending (st.garbage w))
    (hroom : pc.Room (st.garbage w)) : Collects st st' w new :=
  .of_pending hworker (hgarbage.trans (Function.update_eq_self w st.garbage).symm) hunrefs hpending
    hroom

/-- What a step of `conn_unref` logs. -/
theorem unrefStep_logs {r : Ref} {u : UnrefPc} {p : EpollEngine × Option UnrefPc}
    (h : st.unrefStep r u = some p) : st.unrefs ⊆ p.1.unrefs ∧
      (u = .call → r ∈ p.1.unrefs.map UnrefCall.ref) ∧ p.2 ≠ some .call := by
  cases u with
  | call =>
      obtain rfl := Option.some.inj h
      refine ⟨List.subset_append_left _ _, fun _ => ?_, ?_⟩
      · simp
      · dsimp only
        split <;> rintro ⟨⟩
  | exchange =>
      obtain rfl := Option.some.inj h
      refine ⟨fun _ hu => hu, by rintro ⟨⟩, ?_⟩
      dsimp only
      split <;> rintro ⟨⟩
  | poison =>
      simp only [EpollEngine.unrefStep] at h
      split at h
      · obtain rfl := Option.some.inj h
        exact ⟨fun _ hu => hu, by rintro ⟨⟩, by rintro ⟨⟩⟩
      · cases h
  | release | push t =>
      obtain rfl := Option.some.inj h
      exact ⟨fun _ hu => hu, by rintro ⟨⟩, by rintro ⟨⟩⟩

/-- The worker unreferences what it has collected, one after the other. -/
theorem Collects.unref {r : Ref} {rest : List Ref} {u : UnrefPc} {k : AfterUnref}
    {p : EpollEngine × Option UnrefPc} (hpc : st.worker w = .unref (r :: rest) u k)
    (hstep : st.unrefStep r u = some p) :
    Collects st (p.1.setWorker w (EpollEngine.afterUnref r rest k p.2)) w [] := by
  obtain ⟨hunrefs, hlogged, hnext⟩ := unrefStep_logs hstep
  obtain ⟨-, -, -, hworker, hgarbage, -⟩ := EpollEngine.unref_frame hstep
  obtain ⟨st₁, u'⟩ := p
  dsimp only at hgarbage hworker hnext ⊢
  have hrest : ∀ t ∈ rest ++ k.keeps (st.garbage w),
      t ∈ (EpollEngine.afterUnref r rest k u').pending (st.garbage w) := by
    intro t ht
    cases u' with
    | none => simpa [EpollEngine.afterUnref, WorkerPc.pending] using ht
    | some u =>
        have hu : u ≠ .call := fun h => hnext (congrArg some h)
        simpa [EpollEngine.afterUnref, WorkerPc.pending, hu] using ht
  refine ⟨hunrefs, fun v hv => ⟨?_, congrFun hgarbage v⟩, fun t ht => ?_, ?_⟩
  · show Function.update st₁.worker w _ v = st.worker v
    rw [Function.update_of_ne hv, hworker]
  · simp only [EpollEngine.setWorker, Function.update_self, hgarbage]
    rw [hpc, List.append_nil] at ht
    by_cases hu : u = .call
    · simp only [WorkerPc.pending, if_pos hu, List.cons_append] at ht
      rcases List.mem_cons.mp ht with rfl | ht
      · exact Or.inl (hlogged hu)
      · exact Or.inr (hrest t ht)
    · simp only [WorkerPc.pending, if_neg hu, List.tail_cons] at ht
      exact Or.inr (hrest t ht)
  · simp only [EpollEngine.setWorker, Function.update_self]
    cases u' <;> trivial

theorem workerStep_collects {choice : Bool} {batch : List (BitVec 64)}
    (hroom : (st.worker w).Room (st.garbage w)) (hcond : LeavesRoom e st w choice (st.worker w))
    (hstep : st.workerStep e w choice batch = some st') :
    Collects st st' w (unlinks e st choice (st.worker w)) := by
  cases EpollEngine.worker_transition hstep with
  | running hpc hrunning =>
      exact .of_pending rfl rfl rfl (by simp [hpc, WorkerPc.pending, unlinks]) rfl
  | delivered hpc hbatch =>
      rw [hpc] at hroom
      have hempty : st.garbage w = [] := hroom
      refine .moves rfl rfl rfl (by simp [hpc, WorkerPc.pending, unlinks]) ?_
      simpa [WorkerPc.Room, hempty] using hbatch.1
  | dnsWake raw rest hpc | badSlot raw rest hpc =>
      rw [hpc] at hroom
      refine .moves rfl rfl rfl (by simp [hpc, WorkerPc.pending, unlinks]) ?_
      exact Nat.le_trans (Nat.add_le_add_left (Nat.le_succ _) _) hroom
  | startCheck raw rest hpc | readField raw f todo seen rest hpc | pass raw seen rest hpc
  | fatal s rest hpc =>
      rw [hpc] at hroom
      exact .moves rfl rfl rfl (by simp [hpc, WorkerPc.pending, unlinks]) hroom
  | stale raw seen rest hpc | served s rest hpc =>
      rw [hpc] at hroom
      refine .moves rfl rfl rfl (by simp [hpc, WorkerPc.pending, unlinks]) ?_
      exact Nat.le_trans (Nat.add_le_add_left (Nat.le_succ _) _) hroom
  | alreadyClosed s rest hpc hclosed =>
      rw [hpc] at hroom
      refine .moves rfl rfl rfl (by simp [hpc, WorkerPc.pending, unlinks, hclosed]) ?_
      exact Nat.le_trans (Nat.add_le_add_left (Nat.le_succ _) _) hroom
  | lose s rest hpc hfree hopen he hfull =>
      rw [hpc] at hroom
      have hone : (st.garbage w).length + (rest.length + 1) ≤ maxEvents := hroom
      omega
  | close s rest hpc hfree hopen hnotFull =>
      rw [hpc] at hroom
      have hone : (st.garbage w).length + (rest.length + 1) ≤ maxEvents := hroom
      refine .of_pending rfl rfl rfl (by simp [hpc, WorkerPc.pending, unlinks, hopen]) ?_
      show (st.garbage w ++ [st.current s]).length + rest.length ≤ maxEvents
      rw [List.length_append, List.length_singleton]
      omega
  | scanClose s hpc hchoice hscan hfits =>
      exact .of_pending rfl rfl rfl (by simp [hpc, WorkerPc.pending, unlinks, hchoice, hscan]) trivial
  | scanFull s hpc hchoice hscan hfull he =>
      subst he
      exact .moves rfl rfl rfl
        (by simp [hpc, WorkerPc.pending, AfterUnref.keeps, unlinks, hchoice, hscan]) trivial
  | scanLose s hpc hchoice hscan hfull he =>
      rw [hpc] at hcond
      exact absurd (hcond he hchoice hscan) hfull
  | scanSkip s hpc hskip =>
      exact .moves rfl rfl rfl (by simp [hpc, WorkerPc.pending, unlinks, hskip]) trivial
  | relock keep nxt hpc hfree =>
      exact .of_pending rfl rfl rfl (by simp [hpc, WorkerPc.pending, unlinks]) trivial
  | unref r rest u k st₁ u' hpc hunref =>
      rw [hpc]
      exact .unref hpc hunref
  | scanOn u keep nxt hpc =>
      exact .of_pending rfl rfl rfl
        (by simp [hpc, WorkerPc.pending, AfterUnref.keeps, unlinks]) trivial
  | _ =>
      have hpc := ‹st.worker w = _›
      exact .moves rfl rfl rfl (by simp [hpc, WorkerPc.pending, AfterUnref.keeps, unlinks]) trivial

/-! ### Whole runs -/

/-- What a worker has taken off its list is unreferenced, or will be before it waits again. -/
structure UnlinkedInv (e : Engine) (st : EpollEngine) (log : ℕ → List Ref) : Prop where
  workers : ∀ w, log w ≠ [] → w < e.workerCount
  passed : ∀ w, ∀ r ∈ log w,
    r ∈ st.unrefs.map UnrefCall.ref ∨ r ∈ (st.worker w).pending (st.garbage w)
  room : ∀ w, (st.worker w).Room (st.garbage w)

theorem UnlinkedInv.init (e : Engine) : UnlinkedInv e (EpollEngine.init e) fun _ => [] :=
  ⟨fun _ h => absurd rfl h, nofun, fun _ => trivial⟩

/-- The threads that do not run a worker only add to the log of the calls. -/
theorem UnlinkedInv.frame {log : ℕ → List Ref} (h : UnlinkedInv e st log)
    (hworker : st'.worker = st.worker) (hgarbage : st'.garbage = st.garbage)
    (hunrefs : st.unrefs ⊆ st'.unrefs) : UnlinkedInv e st' log where
  workers := h.workers
  passed v r hr := by
    rw [hworker, hgarbage]
    exact (h.passed v r hr).imp_left fun hmem => List.map_subset _ hunrefs hmem
  room v := by
    rw [hworker, hgarbage]
    exact h.room v

theorem handshakeStep_logs {h : ℕ} {ok : Bool} (hstep : st.handshakeStep e h ok = some st') :
    st'.garbage = st.garbage ∧ st.unrefs ⊆ st'.unrefs := by
  cases EpollEngine.handshake_transition hstep with
  | unref r u st₁ u' hpc hunref =>
      exact ⟨(EpollEngine.unref_frame hunref).garbage, (unrefStep_logs hunref).1⟩
  | finalized r u st₁ hpc hunref =>
      exact ⟨(EpollEngine.unref_frame hunref).garbage, (unrefStep_logs hunref).1⟩
  | _ => exact ⟨rfl, fun _ hu => hu⟩

theorem UnlinkedInv.step {ev : EngineEvent} {log : ℕ → List Ref} (h : UnlinkedInv e st log)
    (hcond : BucketRoom e st ev) (hstep : engineStep e st ev = some st') :
    UnlinkedInv e st' (recordUnlinked e st ev log) := by
  cases ev with
  | quit =>
      obtain rfl := Option.some.inj hstep
      exact h.frame rfl rfl fun _ hu => hu
  | restart =>
      simp only [engineStep] at hstep
      split at hstep
      case isFalse => cases hstep
      case isTrue hended =>
        obtain rfl := Option.some.inj hstep
        refine ⟨h.workers, fun v r hr => Or.inl ?_, fun v => trivial⟩
        have hexited := hended.1 v (h.workers v (List.ne_nil_of_mem hr))
        refine (h.passed v r hr).resolve_right fun hmem => ?_
        rw [hexited] at hmem
        exact absurd hmem List.not_mem_nil
  | handoff i idx roles =>
      simp only [engineStep, EpollEngine.handoffStep] at hstep
      split at hstep
      case isFalse => cases hstep
      case isTrue =>
        split at hstep <;>
        · obtain rfl := Option.some.inj hstep
          exact h.frame rfl rfl fun _ hu => hu
  | handshake i ok =>
      obtain ⟨-, hworker, -⟩ := handshakeStep_same hstep
      obtain ⟨hgarbage, hunrefs⟩ := handshakeStep_logs hstep
      exact h.frame hworker hgarbage hunrefs
  | worker w choice batch =>
      simp only [engineStep] at hstep
      split at hstep
      case isFalse => cases hstep
      case isTrue hw =>
        obtain ⟨hunrefs, hothers, hpending, hroom⟩ := workerStep_collects (h.room w) hcond hstep
        refine ⟨fun v hv => ?_, fun v r hr => ?_, fun v => ?_⟩
        · by_cases hvw : v = w
          · exact hvw ▸ hw
          · rw [recordUnlinked, Function.update_of_ne hvw] at hv
            exact h.workers v hv
        · by_cases hv : v = w
          · subst hv
            rw [recordUnlinked, Function.update_self] at hr
            rcases List.mem_append.mp hr with hr | hr
            · rcases h.passed v r hr with hmem | hmem
              · exact Or.inl (List.map_subset _ hunrefs hmem)
              · exact hpending r (List.mem_append_left _ hmem)
            · exact hpending r (List.mem_append_right _ hr)
          · rw [recordUnlinked, Function.update_of_ne hv] at hr
            obtain ⟨hworker, hgarbage⟩ := hothers v hv
            rw [hworker, hgarbage]
            exact (h.passed v r hr).imp_left fun hmem => List.map_subset _ hunrefs hmem
        · by_cases hv : v = w
          · exact hv ▸ hroom
          · obtain ⟨hworker, hgarbage⟩ := hothers v hv
            rw [hworker, hgarbage]
            exact h.room v

/-- When a worker waits, or has ended, everything it has taken off its list has been passed to
`conn_unref`. -/
def NoneForgotten (st : EpollEngine) (log : ℕ → List Ref) : Prop :=
  ∀ w, st.worker w = .wait ∨ st.worker w = .exited → ∀ r ∈ log w, r ∈ st.unrefs.map UnrefCall.ref

/-- In every run whose steps meet the condition no connection is forgotten. -/
theorem none_forgotten {evs : List EngineEvent} {log : ℕ → List Ref}
    (hmeets : Meets (engineStep e) (BucketRoom e) (EpollEngine.init e) evs)
    (hrun : run (record (engineStep e) (recordUnlinked e)) (EpollEngine.init e, fun _ => []) evs =
      some (st, log)) : NoneForgotten st log := by
  have hinv : UnlinkedInv e st log := record_invariant_of_meets
    (fun _ _ _ _ h hcond hstep => h.step hcond hstep) (UnlinkedInv.init e) hmeets hrun
  intro w hw r hr
  refine (hinv.passed w r hr).resolve_right fun hmem => ?_
  have hroom := hinv.room w
  rcases hw with hpc | hpc <;> rw [hpc] at hmem hroom
  · have hempty : st.garbage w = [] := hroom
    simp [WorkerPc.pending, hempty] at hmem
  · exact absurd hmem List.not_mem_nil

def sessionTurn : List EngineEvent :=
  List.flatten [[.handoff 0 0 [.client, .remoteUdp]], List.replicate 18 (.handshake 0 true),
    [.worker 0 true [], .worker 0 true [epKey 2 1087]], List.replicate 9 (.worker 0 true []),
    [.worker 0 false []], List.replicate 7 (.worker 0 true [])]

theorem none_forgotten_sessionTurn : ∃ st log,
    run (record (engineStep .udp) (recordUnlinked .udp)) (EpollEngine.init .udp, fun _ => [])
      sessionTurn = some (st, log) ∧ st.worker 0 = .wait ∧ st.unrefs.length = 1 ∧
        NoneForgotten st log := by
  obtain ⟨st, hst, hlog⟩ := Option.map_eq_some_iff.mp
    (by decide +kernel : (run (engineStep .udp) (EpollEngine.init .udp) sessionTurn).map
      (fun st => (st.worker 0, st.unrefs.length)) = some (.wait, 1))
  obtain ⟨hwait, hunrefs⟩ := Prod.mk.inj hlog
  obtain ⟨log, hrun⟩ := exists_record (recordUnlinked .udp) (fun _ => []) hst
  exact ⟨st, log, hrun, hwait, hunrefs, none_forgotten (by decide +kernel) hrun⟩

/-! ### The scan of a UDP worker with more idle sessions than its bucket holds -/

section Overflow

/-- `n` sessions are on the list of worker 0, which is between two turns of its loop. -/
structure Filled (n : ℕ) (st : EpollEngine) : Prop where
  running : st.serverRunning = true
  free : st.freeSlots = (List.range (udpSlotCount - n)).reverse
  list : st.connList 0 = List.range' (udpSlotCount - n) n
  others : ∀ w, w ≠ 0 → st.connList w = []
  locks : ∀ w, st.listLock w = none
  stopping : st.stopping 0 = false
  worker : st.worker 0 = .loopTest
  handshake : st.handshake 0 = .idle
  live : ∀ s ∈ st.connList 0, st.Scannable .udp s
  unrefs : st.unrefs = []

theorem Filled.init : Filled 0 (EpollEngine.init .udp) where
  running := rfl
  free := by simp only [EpollEngine.init, Engine.slotCount, Nat.sub_zero]
  list := rfl
  others _ _ := rfl
  locks _ := rfl
  stopping := rfl
  worker := rfl
  handshake := rfl
  live := nofun
  unrefs := rfl

theorem Filled.next {n : ℕ} (h : Filled n st) (hn : n < udpSlotCount) :
    ∃ st', Reaches (engineStep .udp) st st' ∧ Filled (n + 1) st' := by
  obtain ⟨m, hm⟩ : ∃ m, udpSlotCount - n = m + 1 := ⟨udpSlotCount - n - 1, by omega⟩
  have hm' : udpSlotCount - (n + 1) = m := by omega
  have hfree : st.freeSlots = m :: (List.range m).reverse := by
    rw [h.free, hm, List.range_succ, List.reverse_append]
    rfl
  have hlist : st.connList 0 = List.range' (m + 1) n := by rw [h.list, hm]
  have hreach₀ : Reaches (engineStep .udp) st (handedOff st 0 m (List.range m).reverse) :=
    Reaches.single (a := .handoff 0 0 [.client, .remoteUdp])
      (handoffStep_eq h.handshake (by decide) hfree)
  obtain ⟨st₁, hreach₁, hpc₁, hconn₁, hfree₁, hlist₁, hrest₁⟩ :=
    handedOff_reach st 0 m (List.range m).reverse
  obtain ⟨st', hreach', hpc', hconn', hfree', hlist', hrest'⟩ := register_reach
    (by rw [hpc₁, Function.update_self]) (fun w => by rw [hrest₁.listLock]; exact h.locks w)
    (by rw [hrest₁.stopping]; exact h.stopping)
  have hrest := hrest₁.trans hrest'
  rw [hlist₁] at hlist'
  refine ⟨st', hreach₀.trans ((setup_reaches hreach₁).trans (setup_reaches hreach')),
    hrest.running.trans h.running, ?_, ?_, fun w hw => ?_, fun w => ?_, ?_, ?_, ?_, fun s hs => ?_,
    hrest.unrefs.trans h.unrefs⟩
  · rw [hfree', hfree₁, hm']
  · rw [hlist', Function.update_self, hlist, hm', List.range'_succ]
  · rw [hlist', Function.update_of_ne hw, h.others w hw]
  · rw [hrest.listLock, h.locks w]
  · rw [hrest.stopping, h.stopping]
  · rw [hrest.worker, h.worker]
  · rw [hpc', Function.update_self]
  · rw [hlist', Function.update_self, hlist] at hs
    rcases List.mem_cons.mp hs with rfl | hs
    · simp [EpollEngine.Scannable, hconn', hconn₁, slotAcquireStores, handoffStores, Store.apply]
    · have hne : s ≠ m := by
        have := (List.mem_range'_1.mp hs).1
        omega
      have hlive := h.live s (hlist ▸ hs)
      simpa [EpollEngine.Scannable, hconn', hconn₁, hne] using hlive

theorem exists_filled {n : ℕ} (hn : n ≤ udpSlotCount) :
    ∃ st, Reaches (engineStep .udp) (EpollEngine.init .udp) st ∧ Filled n st :=
  Reaches.iterate (fun _ hi _ hfilled => hfilled.next (Nat.lt_of_lt_of_le hi hn)) Filled.init

/-- Worker 0 scans its list; `l` is what is left of it, and `k` sessions are in the bucket. -/
structure Scanning (l : List ℕ) (k : ℕ) (st : EpollEngine) : Prop where
  running : st.serverRunning = true
  worker : st.worker 0 = .scan l.head?
  list : st.connList 0 = l
  others : ∀ w, w ≠ 0 → st.connList w = []
  locks : ∀ w, w ≠ 0 → st.listLock w = none
  nodup : l.Nodup
  live : ∀ s ∈ l, st.Scannable .udp s
  bucket : (st.garbage 0).length = k
  collected : ∀ r ∈ st.garbage 0, r.slot ∉ l
  unrefs : st.unrefs = []

theorem Filled.scanning {n : ℕ} (h : Filled n st) :
    ∃ st', Reaches (engineStep .udp) st st' ∧ Scanning (st.connList 0) 0 st' := by
  have hnone : st.listLock 0 = none := h.locks 0
  have hworkers : 0 < Engine.workerCount .udp := by decide
  have hdeliver : ∀ st : EpollEngine, st.Deliverable .udp [] := fun _ => ⟨Nat.zero_le _,
    (by rintro _ ⟨⟩)⟩
  suffices hrun : ∃ st', run (engineStep .udp) st (List.replicate 4 (.worker 0 true [])) = some st' ∧
      Scanning (st.connList 0) 0 st' by
    obtain ⟨st', hrun, hscan⟩ := hrun
    exact ⟨st', ⟨_, hrun⟩, hscan⟩
  simp only [List.replicate, run_cons, run_nil, engineStep, hworkers, if_true, Option.bind_some,
    EpollEngine.workerStep, EpollEngine.setWorker, EpollEngine.setGarbage, EpollEngine.setLock,
    Function.update_self, h.worker, h.running, hdeliver, hnone]
  refine ⟨_, rfl, ?_⟩
  exact
    { running := rfl
      worker := by simp
      list := rfl
      others := h.others
      locks := fun w hw => by simp [hw, h.locks w]
      nodup := by
        rw [h.list]
        exact List.nodup_range'
      live := h.live
      bucket := by simp
      collected := by simp
      unrefs := h.unrefs }

theorem nextConn_head {s : ℕ} {l : List ℕ} (hlist : st.connList 0 = s :: l)
    (hothers : ∀ w, w ≠ 0 → st.connList w = []) : st.nextConn .udp s = l.head? := by
  have hrange : List.range (Engine.workerCount .udp) =
      0 :: (List.range (Engine.workerCount .udp - 1)).map Nat.succ := by rw [← List.range_succ_eq_map]; rfl
  have hrest : ((List.range (Engine.workerCount .udp - 1)).map Nat.succ).findSome?
      (fun w => EpollEngine.next (st.connList w) s) = none := by
    rw [List.findSome?_eq_none_iff]
    intro w hw
    obtain ⟨v, -, rfl⟩ := List.mem_map.mp hw
    rw [hothers _ (Nat.succ_ne_zero v)]
    rfl
  rw [EpollEngine.nextConn, hrange, List.findSome?_cons, hrest, hlist, EpollEngine.next, if_pos rfl]
  cases l <;> rfl

theorem Scanning.unlink {s k : ℕ} {l : List ℕ} (h : Scanning (s :: l) k st) :
    (st.connList 0).erase s = l ∧ st.nextConn .udp s = l.head? ∧
      ∀ t ∈ l, t ≠ s ∧ (st.unlink 0 s).Scannable .udp t := by
  refine ⟨by rw [h.list, List.erase_cons_head], nextConn_head h.list h.others, fun t ht => ?_⟩
  have hne : t ≠ s := by
    rintro rfl
    exact (List.nodup_cons.mp h.nodup).1 ht
  refine ⟨hne, ?_⟩
  simpa [EpollEngine.Scannable, EpollEngine.unlink, EpollEngine.setConn, EpollEngine.setList, hne]
    using h.live t (List.mem_cons_of_mem s ht)

theorem Scanning.next {s k : ℕ} {l : List ℕ} (h : Scanning (s :: l) k st) (hk : k < maxEvents) :
    ∃ st', Reaches (engineStep .udp) st st' ∧ Scanning l (k + 1) st' := by
  obtain ⟨herase, hnext, hlive⟩ := h.unlink
  have hs : st.Scannable .udp s := h.live s List.mem_cons_self
  have hroom : (st.garbage 0).length < maxEvents := by rwa [h.bucket]
  have hstep : engineStep .udp st (.worker 0 true []) =
      some (((st.unlink 0 s).setGarbage 0 (st.garbage 0 ++ [st.current s])).setWorker 0
        (.scan l.head?)) := by
    have hworkers : 0 < Engine.workerCount .udp := by decide
    simp only [engineStep, if_pos hworkers, EpollEngine.workerStep, h.worker, List.head?_cons,
      true_and, if_pos hs, if_pos hroom, hnext]
  refine ⟨_, Reaches.single hstep, ?_⟩
  exact
    { running := h.running
      worker := by simp [EpollEngine.setWorker]
      list := by simp [EpollEngine.setWorker, EpollEngine.setGarbage, EpollEngine.unlink,
        EpollEngine.setList, EpollEngine.setConn, herase]
      others := fun w hw => by simp [EpollEngine.setWorker, EpollEngine.setGarbage,
        EpollEngine.unlink, EpollEngine.setList, EpollEngine.setConn, hw, h.others w hw]
      locks := h.locks
      nodup := (List.nodup_cons.mp h.nodup).2
      live := fun t ht => (hlive t ht).2
      bucket := by simp [EpollEngine.setWorker, EpollEngine.setGarbage, h.bucket]
      collected := by
        intro r hr
        simp only [EpollEngine.setWorker, EpollEngine.setGarbage, Function.update_self] at hr
        rcases List.mem_append.mp hr with hr | hr
        · exact fun hmem => h.collected r hr (List.mem_cons_of_mem s hmem)
        · obtain rfl := List.mem_singleton.mp hr
          exact fun hmem => (hlive s hmem).1 rfl
      unrefs := h.unrefs }

theorem Scanning.many {k m : ℕ} {l l' : List ℕ} (h : Scanning (l' ++ l) k st) (hm : l'.length = m)
    (hk : k + m ≤ maxEvents) :
    ∃ st', Reaches (engineStep .udp) st st' ∧ Scanning l (k + m) st' := by
  induction l' generalizing st k m with
  | nil =>
      subst hm
      exact ⟨st, .refl st, h⟩
  | cons s l' ih =>
      rw [List.length_cons] at hm
      obtain ⟨st₁, hreach₁, h₁⟩ := h.next (by omega)
      obtain ⟨st', hreach', h'⟩ := ih h₁ rfl (by omega)
      refine ⟨st', hreach₁.trans hreach', ?_⟩
      rwa [show k + m = k + 1 + l'.length by omega]

/-- Worker 0 unreferences the sessions of `l`; none of them, nor any before, had slot `s`. -/
structure Unloading (s : ℕ) (l : List Ref) (u : UnrefPc) (st : EpollEngine) : Prop where
  running : st.serverRunning = true
  worker : st.worker 0 = .unref l u .loop
  locks : ∀ w, st.listLock w = none
  rest : ∀ r ∈ l, r.slot ≠ s
  unrefs : ∀ v ∈ st.unrefs, v.ref.slot ≠ s

/-- How many steps `conn_finalize` has before it. -/
def UnrefPc.rank : UnrefPc → ℕ
  | .call => 5
  | .exchange => 4
  | .poison => 3
  | .release => 2
  | .push _ => 1

theorem unrefStep_total (r : Ref) (u : UnrefPc) (hlocks : ∀ w, st.listLock w = none) :
    ∃ p, st.unrefStep r u = some p ∧ p.1.serverRunning = st.serverRunning ∧
      p.1.listLock = st.listLock ∧ (∀ v ∈ p.1.unrefs, v ∈ st.unrefs ∨ v.ref = r) ∧
        ∀ u', p.2 = some u' → u'.rank < u.rank := by
  cases u with
  | call =>
      refine ⟨_, rfl, rfl, rfl, fun v hv => ?_, fun u' hu => ?_⟩
      · rcases List.mem_append.mp hv with hv | hv
        · exact Or.inl hv
        · exact Or.inr (congrArg UnrefCall.ref (List.mem_singleton.mp hv))
      · dsimp only at hu
        split at hu <;> cases hu
        exact Nat.lt_succ_self _
  | exchange =>
      refine ⟨_, rfl, rfl, rfl, fun v hv => Or.inl hv, fun u' hu => ?_⟩
      dsimp only at hu
      split at hu <;> cases hu
      exact Nat.lt_succ_self _
  | poison =>
      refine ⟨_, by rw [EpollEngine.unrefStep, if_pos (hlocks _)], rfl, rfl, fun v hv => Or.inl hv, ?_⟩
      rintro u' ⟨⟩
      exact Nat.lt_succ_self _
  | release =>
      refine ⟨_, rfl, rfl, rfl, fun v hv => Or.inl hv, ?_⟩
      rintro u' ⟨⟩
      exact Nat.lt_succ_self _
  | push t => exact ⟨_, rfl, rfl, rfl, fun v hv => Or.inl hv, by rintro _ ⟨⟩⟩

theorem Unloading.next {s : ℕ} {r : Ref} {l : List Ref} {u : UnrefPc}
    (h : Unloading s (r :: l) u st) :
    ∃ st', Reaches (engineStep .udp) st st' ∧ Unloading s l .call st' := by
  induction hn : u.rank using Nat.strongRecOn generalizing st u with
  | ind n ih =>
      obtain ⟨⟨st₁, u'⟩, hunref, hrunning, hlocks, hunrefs, hrank⟩ := unrefStep_total r u h.locks
      have hworkers : 0 < Engine.workerCount .udp := by decide
      have hstep : engineStep .udp st (.worker 0 true []) = some (st₁.setWorker 0 (match u' with
          | some u => .unref (r :: l) u .loop
          | none => .unref l .call .loop)) := by
        simp only [engineStep, if_pos hworkers, EpollEngine.workerStep, h.worker, hunref,
          Option.map_some]
        cases u' <;> rfl
      have hlog : ∀ v ∈ st₁.unrefs, v.ref.slot ≠ s := by
        intro v hv
        rcases hunrefs v hv with hv | hv
        · exact h.unrefs v hv
        · exact hv ▸ h.rest r List.mem_cons_self
      cases u' with
      | none =>
          refine ⟨_, Reaches.single hstep, hrunning.trans h.running, ?_, fun w => ?_,
            fun r' hr => h.rest r' (List.mem_cons_of_mem r hr), hlog⟩
          · simp [EpollEngine.setWorker]
          · exact (congrFun hlocks w).trans (h.locks w)
      | some u' =>
          have hnext : Unloading s (r :: l) u' (st₁.setWorker 0 (.unref (r :: l) u' .loop)) :=
            ⟨hrunning.trans h.running, by simp [EpollEngine.setWorker],
              fun w => (congrFun hlocks w).trans (h.locks w), h.rest, hlog⟩
          obtain ⟨st', hreach, h'⟩ := ih u'.rank (hn ▸ hrank u' rfl) hnext rfl
          exact ⟨st', (Reaches.single hstep).trans hreach, h'⟩

theorem Unloading.waits {s : ℕ} {l : List Ref} (h : Unloading s l .call st) :
    ∃ st', Reaches (engineStep .udp) st st' ∧ st'.worker 0 = .wait ∧
      ∀ v ∈ st'.unrefs, v.ref.slot ≠ s := by
  induction l generalizing st with
  | nil =>
      have hworkers : 0 < Engine.workerCount .udp := by decide
      refine ⟨((st.setWorker 0 .loopTest).setGarbage 0 []).setWorker 0 .wait,
        ⟨List.replicate 2 (.worker 0 true []), ?_⟩, by simp [EpollEngine.setWorker], h.unrefs⟩
      simp only [List.replicate, run_cons, run_nil, engineStep, hworkers, if_true, Option.bind_some,
        EpollEngine.workerStep, EpollEngine.setWorker, EpollEngine.setGarbage, Function.update_self,
        h.worker, h.running]
  | cons r l ih =>
      obtain ⟨st₁, hreach₁, h₁⟩ := h.next
      obtain ⟨st', hreach', h'⟩ := ih h₁
      exact ⟨st', hreach₁.trans hreach', h'⟩

/-- The session that finds the bucket full is closed, and in no bucket. -/
theorem Scanning.forgets {s : ℕ} (h : Scanning [s] maxEvents st) :
    unlinks .udp st true (st.worker 0) = [st.current s] ∧
      ∃ st₁ st', engineStep .udp st (.worker 0 true []) = some st₁ ∧
        Reaches (engineStep .udp) st₁ st' ∧ st'.worker 0 = .wait ∧
          ∀ v ∈ st'.unrefs, v.ref.slot ≠ s := by
  obtain ⟨-, hnext, -⟩ := h.unlink
  have hs : st.Scannable .udp s := h.live s List.mem_cons_self
  have hfull : ¬ (st.garbage 0).length < maxEvents := by
    rw [h.bucket]
    exact Nat.lt_irrefl _
  have hworkers : 0 < Engine.workerCount .udp := by decide
  have hstep : engineStep .udp st (.worker 0 true []) =
      some ((st.unlink 0 s).setWorker 0 (.scan none)) := by
    simp only [engineStep, if_pos hworkers, EpollEngine.workerStep, h.worker, List.head?_cons,
      true_and, if_pos hs, if_neg hfull, hnext]
    rfl
  have hunlock : engineStep .udp ((st.unlink 0 s).setWorker 0 (.scan none)) (.worker 0 true []) =
      some ((((st.unlink 0 s).setWorker 0 (.scan none)).setLock 0 none).setWorker 0
        (.unref (st.garbage 0) .call .loop)) := by
    simp only [engineStep, if_pos hworkers, EpollEngine.workerStep, EpollEngine.setWorker,
      Function.update_self]
    rfl
  have hunload : Unloading s (st.garbage 0) .call ((((st.unlink 0 s).setWorker 0
      (.scan none)).setLock 0 none).setWorker 0 (.unref (st.garbage 0) .call .loop)) := by
    refine ⟨h.running, by simp [EpollEngine.setWorker], fun w => ?_, fun r hr => ?_, fun v hv => ?_⟩
    · by_cases hw : w = 0
      · simp [EpollEngine.setWorker, EpollEngine.setLock, hw]
      · simpa [EpollEngine.setWorker, EpollEngine.setLock, EpollEngine.unlink, EpollEngine.setList,
          EpollEngine.setConn, hw] using h.locks w hw
    · exact fun heq => h.collected r hr (heq ▸ List.mem_cons_self)
    · have hv : v ∈ st.unrefs := hv
      rw [h.unrefs] at hv
      exact absurd hv List.not_mem_nil
  obtain ⟨st', hreach, hwait, hunrefs⟩ := hunload.waits
  refine ⟨?_, _, st', hstep, (Reaches.single hunlock).trans hreach, hwait, hunrefs⟩
  simp [h.worker, unlinks, hs]

end Overflow

theorem mem_recordUnlinked {ev : EngineEvent} {log : ℕ → List Ref} {r : Ref} (h : r ∈ log w) :
    r ∈ recordUnlinked e st ev log w := by
  cases ev with
  | worker v choice batch =>
      by_cases hv : w = v
      · subst hv
        rw [recordUnlinked, Function.update_self]
        exact List.mem_append_left _ h
      · rwa [recordUnlinked, Function.update_of_ne hv]
  | quit | restart | handoff i idx roles | handshake i ok => exact h

/-- More sessions than the bucket holds become idle in one scan: one of them is never passed to
`udp_conn_unref`. -/
theorem idle_session_forgotten : ∃ evs st log,
    run (record (engineStep .udp) (recordUnlinked .udp)) (EpollEngine.init .udp, fun _ => []) evs =
      some (st, log) ∧ ¬ NoneForgotten st log := by
  obtain ⟨st₁, hreach₁, hfilled⟩ := exists_filled (by decide : maxEvents + 1 ≤ udpSlotCount)
  obtain ⟨st₂, hreach₂, hscan⟩ := hfilled.scanning
  rw [hfilled.list, List.range'_concat] at hscan
  generalize udpSlotCount - (maxEvents + 1) + 1 * maxEvents = s at hscan
  obtain ⟨st₃, hreach₃, hfull⟩ := hscan.many List.length_range' (Nat.le_of_eq (Nat.zero_add _))
  rw [Nat.zero_add] at hfull
  obtain ⟨hunlinks, st₄, st, hstep, ⟨evs', hrun'⟩, hwait, hunrefs⟩ := hfull.forgets
  obtain ⟨evs, hrun⟩ := (hreach₁.trans hreach₂).trans hreach₃
  obtain ⟨log₃, hlog₃⟩ := exists_record (recordUnlinked .udp) (fun _ => []) hrun
  obtain ⟨log, hlog⟩ := exists_record (recordUnlinked .udp)
    (recordUnlinked .udp st₃ (.worker 0 true []) log₃) hrun'
  have hmem : st₃.current s ∈ log 0 := run_invariant (P := fun p => st₃.current s ∈ p.2 0)
    (fun p ev q hp hq => (record_eq_some.mp hq).2 ▸ mem_recordUnlinked hp)
    (by simp [recordUnlinked, hunlinks]) hlog
  refine ⟨evs ++ .worker 0 true [] :: evs', st, log, run_append_of_eq hlog₃
    (run_cons_eq_some.mpr ⟨_, record_eq_some.mpr ⟨hstep, rfl⟩, hlog⟩), fun hnone => ?_⟩
  obtain ⟨v, hv, href⟩ := List.mem_map.mp (hnone 0 (Or.inl hwait) _ hmem)
  exact hunrefs v hv (congrArg Ref.slot href)

end FiveGProxy
