import FiveGProxy.Slots.Model

/-!
# What one step of a thread can do

`workerStep` and `handshakeStep` are nests of cases. `WorkerTransition` and `HandshakeTransition`
list what can come out of them, once, with the guards that the step has checked, and the invariants
are proved from these lists.
-/

namespace FiveGProxy

namespace EpollEngine

variable {e : Engine} {st st' : EpollEngine}

/-- What a step of `conn_unref` leaves alone. -/
structure UnrefFrame (st st' : EpollEngine) : Prop where
  serverRunning : st'.serverRunning = st.serverRunning
  listLock : st'.listLock = st.listLock
  stopping : st'.stopping = st.stopping
  worker : st'.worker = st.worker
  garbage : st'.garbage = st.garbage
  handshake : st'.handshake = st.handshake
  tenancy : st'.tenancy = st.tenancy
  issued : st'.issued = st.issued
  verdicts : st'.verdicts = st.verdicts

theorem unref_frame {r : Ref} {u : UnrefPc} {p : EpollEngine × Option UnrefPc}
    (h : st.unrefStep r u = some p) : UnrefFrame st p.1 := by
  cases u with
  | poison =>
      simp only [unrefStep] at h
      split at h
      · cases h
        exact ⟨rfl, rfl, rfl, rfl, rfl, rfl, rfl, rfl, rfl⟩
      · cases h
  | call | exchange | release | push s =>
      cases h
      exact ⟨rfl, rfl, rfl, rfl, rfl, rfl, rfl, rfl, rfl⟩

/-- The place of a worker behind a step of `conn_unref`. -/
def afterUnref (r : Ref) (rest : List Ref) (k : AfterUnref) : Option UnrefPc → WorkerPc
  | some u => .unref (r :: rest) u k
  | none => .unref rest .call k

/-- What a step of worker `w` can do. -/
inductive WorkerTransition (e : Engine) (st : EpollEngine) (w : ℕ) (choice : Bool)
    (batch : List (BitVec 64)) : EpollEngine → Prop
  | running (hpc : st.worker w = .loopTest) (hrunning : st.serverRunning = true) :
      WorkerTransition e st w choice batch ((st.setGarbage w []).setWorker w .wait)
  | stopped (hpc : st.worker w = .loopTest) (hstopped : st.serverRunning = false) :
      WorkerTransition e st w choice batch (st.setWorker w .stop)
  | delivered (hpc : st.worker w = .wait) (hbatch : st.Deliverable e batch) :
      WorkerTransition e st w choice batch (st.setWorker w (.events batch))
  | scanDue (hpc : st.worker w = .events []) (hdue : choice = true) :
      WorkerTransition e st w choice batch (st.setWorker w .scanLock)
  | batchDone (hpc : st.worker w = .events []) :
      WorkerTransition e st w choice batch
        (st.setWorker w (.unref (st.garbage w) .call .loop))
  | quitEvent (rest) (hpc : st.worker w = .events (0 :: rest)) :
      WorkerTransition e st w choice batch (st.setWorker w .stop)
  | dnsWake (raw rest) (hpc : st.worker w = .events (raw :: rest)) :
      WorkerTransition e st w choice batch (st.setWorker w (.events rest))
  | badSlot (raw rest) (hpc : st.worker w = .events (raw :: rest))
      (hbad : eventBadSlot (e.decode raw).sidx.toInt e.slotCount = true) :
      WorkerTransition e st w choice batch (st.setWorker w (.events rest))
  | startCheck (raw rest) (hpc : st.worker w = .events (raw :: rest)) (hzero : raw ≠ 0)
      (hwake : ¬(e = .udp ∧ udpEventIsDnsWake raw = true)) :
      WorkerTransition e st w choice batch (st.setWorker w (.check raw e.fields .blank rest))
  | readField (raw f todo seen rest) (hpc : st.worker w = .check raw (f :: todo) seen rest) :
      WorkerTransition e st w choice batch
        (st.setWorker w (.check raw todo (seen.read (st.conn (slotOf e raw)) f) rest))
  | pass (raw seen rest) (hpc : st.worker w = .check raw [] seen rest)
      (hpass : e.checkSlot (e.decode raw).egen seen w = .process) :
      WorkerTransition e st w choice batch
        { st.setWorker w (.process (slotOf e raw) rest) with
          verdicts := st.verdicts ++ [⟨w, raw, (e.decode raw).role, st.current (slotOf e raw),
            st.conn (slotOf e raw)⟩] }
  | stale (raw seen rest) (hpc : st.worker w = .check raw [] seen rest) :
      WorkerTransition e st w choice batch (st.setWorker w (.events rest))
  | fatal (s rest) (hpc : st.worker w = .process s rest) (hfatal : choice = true) :
      WorkerTransition e st w choice batch (st.setWorker w (.fatal s rest))
  | served (s rest) (hpc : st.worker w = .process s rest) :
      WorkerTransition e st w choice batch (st.setWorker w (.events rest))
  | alreadyClosed (s rest) (hpc : st.worker w = .fatal s rest)
      (hclosed : (st.conn s).closed = true) :
      WorkerTransition e st w choice batch (st.setWorker w (.events rest))
  | lose (s rest) (hpc : st.worker w = .fatal s rest) (hfree : st.listLock w = none)
      (hopen : (st.conn s).closed = false) (he : e = .udp)
      (hfull : maxEvents ≤ (st.garbage w).length) :
      WorkerTransition e st w choice batch ((st.unlink w s).setWorker w (.events rest))
  | close (s rest) (hpc : st.worker w = .fatal s rest) (hfree : st.listLock w = none)
      (hopen : (st.conn s).closed = false)
      (hroom : ¬(e = .udp ∧ maxEvents ≤ (st.garbage w).length)) :
      WorkerTransition e st w choice batch
        (((st.unlink w s).setGarbage w (st.garbage w ++ [st.current s])).setWorker w
          (.events rest))
  | scanLock (hpc : st.worker w = .scanLock) (hfree : st.listLock w = none) :
      WorkerTransition e st w choice batch
        ((st.setLock w (some (.worker w))).setWorker w (.scan (st.connList w).head?))
  | scanEnd (hpc : st.worker w = .scan none) :
      WorkerTransition e st w choice batch
        ((st.setLock w none).setWorker w (.unref (st.garbage w) .call .loop))
  | scanClose (s) (hpc : st.worker w = .scan (some s)) (hchoice : choice = true)
      (hscan : st.Scannable e s) (hroom : (st.garbage w).length < maxEvents) :
      WorkerTransition e st w choice batch
        (((st.unlink w s).setGarbage w (st.garbage w ++ [st.current s])).setWorker w
          (.scan (st.nextConn e s)))
  | scanFull (s) (hpc : st.worker w = .scan (some s)) (hchoice : choice = true)
      (hscan : st.Scannable e s) (hfull : ¬(st.garbage w).length < maxEvents) (he : e = .tcp) :
      WorkerTransition e st w choice batch
        (((st.unlink w s).setLock w none).setWorker w
          (.unref (st.garbage w) .call (.relock (st.current s) (st.nextConn e s))))
  | scanLose (s) (hpc : st.worker w = .scan (some s)) (hchoice : choice = true)
      (hscan : st.Scannable e s) (hfull : ¬(st.garbage w).length < maxEvents) (he : e = .udp) :
      WorkerTransition e st w choice batch
        ((st.unlink w s).setWorker w (.scan (st.nextConn e s)))
  | scanSkip (s) (hpc : st.worker w = .scan (some s))
      (hskip : ¬(choice = true ∧ st.Scannable e s)) :
      WorkerTransition e st w choice batch (st.setWorker w (.scan (st.nextConn e s)))
  | relock (keep nxt) (hpc : st.worker w = .relock keep nxt) (hfree : st.listLock w = none) :
      WorkerTransition e st w choice batch
        (((st.setLock w (some (.worker w))).setGarbage w [keep]).setWorker w (.scan nxt))
  | unref (r rest u k st₁ u') (hpc : st.worker w = .unref (r :: rest) u k)
      (hunref : st.unrefStep r u = some (st₁, u')) :
      WorkerTransition e st w choice batch (st₁.setWorker w (afterUnref r rest k u'))
  | loop (u) (hpc : st.worker w = .unref [] u .loop) :
      WorkerTransition e st w choice batch (st.setWorker w .loopTest)
  | scanOn (u keep nxt) (hpc : st.worker w = .unref [] u (.relock keep nxt)) :
      WorkerTransition e st w choice batch ((st.setGarbage w []).setWorker w (.relock keep nxt))
  | drainOn (u) (hpc : st.worker w = .unref [] u (.drained true)) :
      WorkerTransition e st w choice batch (st.setWorker w .drainLock)
  | drained (u) (hpc : st.worker w = .unref [] u (.drained false)) :
      WorkerTransition e st w choice batch
        (st.setWorker w (.unref (st.garbage w) .call .close))
  | exit (u) (hpc : st.worker w = .unref [] u .close) :
      WorkerTransition e st w choice batch (st.setWorker w .exited)
  | stop (hpc : st.worker w = .stop) (hfree : st.listLock w = none) :
      WorkerTransition e st w choice batch
        { st.setWorker w .drainLock with stopping := Function.update st.stopping w true }
  | drainLock (hpc : st.worker w = .drainLock) (hfree : st.listLock w = none) :
      WorkerTransition e st w choice batch
        ((st.setLock w (some (.worker w))).setWorker w (.drain []))
  | drainClose (collected s rest) (hpc : st.worker w = .drain collected)
      (hlist : st.connList w = s :: rest) (hroom : collected.length < maxEvents)
      (hmagic : (st.conn s).magic = e.magic) :
      WorkerTransition e st w choice batch
        (((st.setConn s { st.conn s with closed := true }).setList w rest).setWorker w
          (.drain (collected ++ [st.current s])))
  | drainSkip (collected s rest) (hpc : st.worker w = .drain collected)
      (hlist : st.connList w = s :: rest) (hroom : collected.length < maxEvents)
      (hmagic : (st.conn s).magic ≠ e.magic) :
      WorkerTransition e st w choice batch
        ((st.setList w rest).setWorker w (.drain collected))
  | drainFull (collected s rest) (hpc : st.worker w = .drain collected)
      (hlist : st.connList w = s :: rest) (hfull : ¬collected.length < maxEvents) :
      WorkerTransition e st w choice batch
        ((st.setLock w none).setWorker w (.unref collected .call (.drained true)))
  | drainEnd (collected) (hpc : st.worker w = .drain collected) (hlist : st.connList w = []) :
      WorkerTransition e st w choice batch
        ((st.setLock w none).setWorker w (.unref collected .call
          (.drained (decide (maxEvents ≤ collected.length)))))

theorem worker_transition {w : ℕ} {choice : Bool} {batch : List (BitVec 64)}
    (h : st.workerStep e w choice batch = some st') : WorkerTransition e st w choice batch st' := by
  unfold workerStep at h
  split at h
  case h_1 hpc =>
    split at h
    case isTrue hrunning =>
      cases h
      exact .running hpc hrunning
    case isFalse hstopped =>
      cases h
      exact .stopped hpc (eq_false_of_ne_true hstopped)
  case h_2 hpc =>
    split at h
    case isTrue hbatch =>
      cases h
      exact .delivered hpc hbatch
    case isFalse => cases h
  case h_3 hpc =>
    split at h
    case isTrue hdue =>
      cases h
      exact .scanDue hpc hdue
    case isFalse =>
      cases h
      exact .batchDone hpc
  case h_4 raw rest hpc =>
    split at h
    case isTrue hzero =>
      cases h
      subst hzero
      exact .quitEvent rest hpc
    case isFalse hzero =>
      split at h
      case isTrue =>
        cases h
        exact .dnsWake raw rest hpc
      case isFalse hwake =>
        split at h
        case isTrue hbad =>
          cases h
          exact .badSlot raw rest hpc hbad
        case isFalse =>
          cases h
          exact .startCheck raw rest hpc hzero hwake
  case h_5 raw f todo seen rest hpc =>
    cases h
    exact .readField raw f todo seen rest hpc
  case h_6 raw seen rest hpc =>
    split at h
    case isTrue hpass =>
      cases h
      exact .pass raw seen rest hpc hpass
    case isFalse =>
      cases h
      exact .stale raw seen rest hpc
  case h_7 s rest hpc =>
    split at h
    case isTrue hfatal =>
      cases h
      exact .fatal s rest hpc hfatal
    case isFalse =>
      cases h
      exact .served s rest hpc
  case h_8 s rest hpc =>
    split at h
    case isFalse => cases h
    case isTrue hfree =>
      split at h
      case isTrue hclosed =>
        cases h
        exact .alreadyClosed s rest hpc hclosed
      case isFalse hclosed =>
        have hopen := eq_false_of_ne_true hclosed
        split at h
        case isTrue hfull =>
          cases h
          exact .lose s rest hpc hfree hopen hfull.1 hfull.2
        case isFalse hroom =>
          cases h
          exact .close s rest hpc hfree hopen hroom
  case h_9 hpc =>
    split at h
    case isTrue hfree =>
      cases h
      exact .scanLock hpc hfree
    case isFalse => cases h
  case h_10 hpc =>
    cases h
    exact .scanEnd hpc
  case h_11 s hpc =>
    split at h
    case isTrue hscan =>
      split at h
      case isTrue hroom =>
        cases h
        exact .scanClose s hpc hscan.1 hscan.2 hroom
      case isFalse hfull =>
        cases e with
        | tcp =>
            cases h
            exact .scanFull s hpc hscan.1 hscan.2 hfull rfl
        | udp =>
            cases h
            exact .scanLose s hpc hscan.1 hscan.2 hfull rfl
    case isFalse hskip =>
      cases h
      exact .scanSkip s hpc hskip
  case h_12 keep nxt hpc =>
    split at h
    case isTrue hfree =>
      cases h
      exact .relock keep nxt hpc hfree
    case isFalse => cases h
  case h_13 r rest u k hpc =>
    obtain ⟨⟨st₁, u'⟩, hunref, rfl⟩ := Option.map_eq_some_iff.mp h
    cases u' with
    | none => exact .unref r rest u k st₁ none hpc hunref
    | some u' => exact .unref r rest u k st₁ (some u') hpc hunref
  case h_14 u k hpc =>
    split at h
    case h_1 =>
      cases h
      exact .loop u hpc
    case h_2 keep nxt =>
      cases h
      exact .scanOn u keep nxt hpc
    case h_3 full =>
      cases h
      cases full with
      | true => exact .drainOn u hpc
      | false => exact .drained u hpc
    case h_4 =>
      cases h
      exact .exit u hpc
  case h_15 hpc =>
    split at h
    case isTrue hfree =>
      cases h
      exact .stop hpc hfree
    case isFalse => cases h
  case h_16 hpc =>
    split at h
    case isTrue hfree =>
      cases h
      exact .drainLock hpc hfree
    case isFalse => cases h
  case h_17 collected hpc =>
    split at h
    case h_1 s rest hlist =>
      split at h
      case isTrue hroom =>
        split at h
        case isTrue hmagic =>
          cases h
          exact .drainClose collected s rest hpc hlist hroom hmagic
        case isFalse hmagic =>
          cases h
          exact .drainSkip collected s rest hpc hlist hroom hmagic
      case isFalse hfull =>
        cases h
        exact .drainFull collected s rest hpc hlist hfull
    case h_2 hlist =>
      cases h
      exact .drainEnd collected hpc hlist
  case h_18 => cases h

/-- What a step of handshake thread `h` can do. -/
inductive HandshakeTransition (e : Engine) (st : EpollEngine) (h : ℕ) (ok : Bool) :
    EpollEngine → Prop
  | store (r idx roles x todo) (hpc : st.handshake h = .prepare r idx roles (x :: todo)) :
      HandshakeTransition e st h ok
        ((st.setConn r.slot (x.apply e r.slot (st.conn r.slot))).setHandshake h
          (.prepare r idx roles todo))
  | prepared (r idx roles) (hpc : st.handshake h = .prepare r idx roles []) :
      HandshakeTransition e st h ok (st.setHandshake h (.setup r idx roles))
  | setupTcp (r idx roles) (hpc : st.handshake h = .setup r idx roles) (he : e = .tcp) :
      HandshakeTransition e st h ok
        ((st.setConn r.slot { st.conn r.slot with closed := false }).setHandshake h
          (.lock r idx roles))
  | setupUdp (r idx roles) (hpc : st.handshake h = .setup r idx roles) (he : e = .udp) :
      HandshakeTransition e st h ok (st.setHandshake h (.lock r idx roles))
  | setupFailed (r idx roles) (hpc : st.handshake h = .setup r idx roles) :
      HandshakeTransition e st h ok (st.setHandshake h (.unref r .call))
  | lock (r idx roles) (hpc : st.handshake h = .lock r idx roles) (hfree : st.listLock idx = none) :
      HandshakeTransition e st h ok
        ((st.setLock idx (some (.handshake h))).setHandshake h (.locked r idx roles))
  | refuse (r idx roles) (hpc : st.handshake h = .locked r idx roles)
      (hstopping : st.stopping idx = true) :
      HandshakeTransition e st h ok ((st.setLock idx none).setHandshake h (.unref r .call))
  | enlist (r idx roles) (hpc : st.handshake h = .locked r idx roles)
      (hrunning : st.stopping idx = false) :
      HandshakeTransition e st h ok
        ((st.setList idx (r.slot :: st.connList idx)).setHandshake h (.add r idx roles))
  | add (r idx role roles) (hpc : st.handshake h = .add r idx (role :: roles)) :
      HandshakeTransition e st h ok
        { st.setHandshake h (.add r idx roles) with
          issued := st.issued ++ [⟨(st.conn r.slot).epU64 ||| e.roleFlag role, r, role⟩] }
  | addFailed (r idx role roles) (hpc : st.handshake h = .add r idx (role :: roles)) :
      HandshakeTransition e st h ok
        (((st.setConn r.slot { st.conn r.slot with closed := true }).setList idx
          ((st.connList idx).erase r.slot)).setHandshake h (.rollback r idx))
  | added (r idx) (hpc : st.handshake h = .add r idx []) :
      HandshakeTransition e st h ok ((st.setLock idx none).setHandshake h (.added e r))
  | rollback (r idx) (hpc : st.handshake h = .rollback r idx) :
      HandshakeTransition e st h ok ((st.setLock idx none).setHandshake h (.unref r .call))
  | stamp (r) (hpc : st.handshake h = .stamp r) :
      HandshakeTransition e st h ok (st.setHandshake h (.register r))
  | register (r) (hpc : st.handshake h = .register r) :
      HandshakeTransition e st h ok
        ((st.setConn r.slot { st.conn r.slot with registered := true }).setHandshake h .idle)
  | unref (r u st₁ u') (hpc : st.handshake h = .unref r u)
      (hunref : st.unrefStep r u = some (st₁, some u')) :
      HandshakeTransition e st h ok (st₁.setHandshake h (.unref r u'))
  | finalized (r u st₁) (hpc : st.handshake h = .unref r u)
      (hunref : st.unrefStep r u = some (st₁, none)) :
      HandshakeTransition e st h ok (st₁.setHandshake h .idle)

theorem handshake_transition {h : ℕ} {ok : Bool} (hstep : st.handshakeStep e h ok = some st') :
    HandshakeTransition e st h ok st' := by
  unfold handshakeStep at hstep
  split at hstep
  case h_1 => cases hstep
  case h_2 r idx roles x todo hpc =>
    cases hstep
    exact .store r idx roles x todo hpc
  case h_3 r idx roles hpc =>
    cases hstep
    exact .prepared r idx roles hpc
  case h_4 r idx roles hpc =>
    split at hstep
    case isTrue =>
      cases e with
      | tcp =>
          cases hstep
          exact .setupTcp r idx roles hpc rfl
      | udp =>
          cases hstep
          exact .setupUdp r idx roles hpc rfl
    case isFalse =>
      cases hstep
      exact .setupFailed r idx roles hpc
  case h_5 r idx roles hpc =>
    split at hstep
    case isTrue hfree =>
      cases hstep
      exact .lock r idx roles hpc hfree
    case isFalse => cases hstep
  case h_6 r idx roles hpc =>
    split at hstep
    case isTrue hstopping =>
      cases hstep
      exact .refuse r idx roles hpc hstopping
    case isFalse hrunning =>
      cases hstep
      exact .enlist r idx roles hpc (eq_false_of_ne_true hrunning)
  case h_7 r idx role roles hpc =>
    split at hstep
    case isTrue =>
      cases hstep
      exact .add r idx role roles hpc
    case isFalse =>
      cases hstep
      exact .addFailed r idx role roles hpc
  case h_8 r idx hpc =>
    cases hstep
    exact .added r idx hpc
  case h_9 r idx hpc =>
    cases hstep
    exact .rollback r idx hpc
  case h_10 r hpc =>
    cases hstep
    exact .stamp r hpc
  case h_11 r hpc =>
    cases hstep
    exact .register r hpc
  case h_12 r u hpc =>
    obtain ⟨⟨st₁, u'⟩, hunref, rfl⟩ := Option.map_eq_some_iff.mp hstep
    cases u' with
    | none => exact .finalized r u st₁ hpc hunref
    | some u' => exact .unref r u st₁ u' hpc hunref

end EpollEngine

end FiveGProxy
