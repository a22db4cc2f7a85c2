import FiveGProxy.Config
import FiveGProxy.Library.Steps
import Mathlib.Data.List.Nodup
import Mathlib.Logic.Function.Basic

/-!
# Start and stop of the engine

`native_start_socks5_server` and `native_stop_socks5_server` are called one after the other. A
start creates a server thread (`server_thread_func`, `socks5_server_main_dynamic`), which creates
the listener thread (`listener_task`), which creates everything else. A stop runs
`socks5_server_quit` and joins the server thread. Every step below is one access to a shared flag,
one system call or one section under `g_listener_lock`; the steps of all threads interleave freely.

Servers and listeners are numbered in the order of their creation, from 1 on; number 0 stands for
the initial contents of `g_server_thread` and `listener_thread`.
-/

namespace FiveGProxy

open Steps

/-- A thread, mutex or buffer that `listener_task` creates and `socks5_server_quit` tears down. -/
inductive Part
  | listLock (i : ℕ)
  | worker (i : ℕ)
  | poolJobs
  | poolThreads
  -- the mutex of the pool together with its two condition variables
  | poolLock
  | poolThread (i : ℕ)
  | udpListLock (i : ℕ)
  | udpWorker (i : ℕ)
  | dnsThread (i : ℕ)
  deriving DecidableEq, Repr

namespace Part

def workers : List Part :=
  (List.range workerCount).flatMap fun i => [listLock i, worker i]

def pool (nthreads : ℕ) : List Part :=
  [poolJobs, poolThreads, poolLock] ++ (List.range nthreads).map poolThread

def udpWorkers : List Part :=
  (List.range udpWorkerCount).flatMap fun i => [udpListLock i, udpWorker i]

def dnsThreads : List Part :=
  (List.range udpDnsResolverThreads).map dnsThread

/-- The order in which `listener_task` creates them. -/
def startOrder : List Part :=
  workers ++ (pool handshakePoolSize ++ (udpWorkers ++ dnsThreads))

/-- What `socks5_server_quit` tears down after the threads of the pool, in its order. -/
def quitOrder : List Part :=
  [poolLock, poolJobs, poolThreads] ++ (dnsThreads ++
    ((List.range udpWorkerCount).flatMap (fun i => [udpWorker i, udpListLock i]) ++
      (List.range workerCount).flatMap fun i => [worker i, listLock i]))

/-- The parts there are, with the first `nthreads` threads of the pool. -/
def InRange (nthreads : ℕ) : Part → Prop
  | listLock i | worker i => i < workerCount
  | poolJobs | poolThreads | poolLock => True
  | poolThread i => i < nthreads
  | udpListLock i | udpWorker i => i < udpWorkerCount
  | dnsThread i => i < udpDnsResolverThreads

theorem InRange.mono {m n : ℕ} (hmn : m ≤ n) : ∀ {p : Part}, p.InRange m → p.InRange n
  | .poolThread _, h => Nat.lt_of_lt_of_le h hmn
  | .listLock _, h | .worker _, h | .poolJobs, h | .poolThreads, h | .poolLock, h
  | .udpListLock _, h | .udpWorker _, h | .dnsThread _, h => h

theorem mem_startOrder {p : Part} : p ∈ startOrder ↔ p.InRange handshakePoolSize := by
  cases p <;> simp [startOrder, workers, pool, udpWorkers, dnsThreads, InRange]

theorem mem_quitOrder {p : Part} : p ∈ quitOrder ↔ p.InRange 0 := by
  cases p <;> simp [quitOrder, dnsThreads, InRange]

theorem nodup_pool (nthreads : ℕ) : (pool nthreads).Nodup := by
  have hthreads : ((List.range nthreads).map poolThread).Nodup :=
    List.nodup_range.map fun _ _ h => Part.poolThread.inj h
  simp [pool, hthreads]

theorem nodup_startOrder : startOrder.Nodup := by
  refine List.nodup_append'.mpr ⟨by decide, List.nodup_append'.mpr ⟨nodup_pool _, by decide, ?_⟩, ?_⟩
  · intro p hpool hudp
    cases p <;> simp [pool, udpWorkers, dnsThreads] at hpool hudp
  · intro p hworkers hrest
    cases p <;> simp [workers, pool, udpWorkers, dnsThreads] at hworkers hrest

theorem nodup_quitOrder : quitOrder.Nodup := by
  decide

end Part

inductive ServerPc
  | load
  | store
  | create
  | fail
  | done
  deriving DecidableEq, Repr

inductive ListenerPc
  | pipe
  | zeroCount
  | firstReconcile
  | check
  | failStore
  | failClose
  | returnedEarly
  | build (rest : List Part)
  | loopTest
  | loopReconcile
  | poll
  | finalClose
  | returned
  deriving DecidableEq, Repr

inductive JniPc
  | idle
  | startSet
  | startCreate
  | quitLoad
  | quitStore
  | quitClear
  | quitWake
  | quitJoin
  | poolShutdown
  | joinPool (i : ℕ)
  | tear (rest : List Part)
  | closePipe
  | joinServer
  | stopEnd
  deriving DecidableEq, Repr

/-- A call of `socks5_server_quit` on something it has no right to. -/
inductive Misuse
  | joinListener
  | jobPoolShutdown
  | part (p : Part)
  deriving DecidableEq, Repr

structure Life where
  /-- `g_server_running` of the JNI layer. -/
  gServerRunning : Bool
  /-- `server_running` of the engine. -/
  serverRunning : Bool
  nServers : ℕ
  server : ℕ → ServerPc
  nListeners : ℕ
  listener : ℕ → ListenerPc
  joined : ℕ → Bool
  /-- The open sockets of the listener table, `g_listener_count`. -/
  listenerCount : ℕ
  /-- Sockets that were in the table when `listener_task` emptied it without closing them. -/
  leaked : ℕ
  pipeOpen : Bool
  pipeWritten : Bool
  /-- The listener that created the part, while it is not torn down. -/
  alive : Part → Option ℕ
  /-- `g_handshake_pool.nthreads`. -/
  nthreads : ℕ
  /-- `g_dns_threads[i]` is not 0. -/
  dnsHandle : ℕ → Bool
  jni : JniPc
  misuse : List Misuse
  /-- A stop has returned and no start was called since. -/
  stopReturned : Bool

inductive LifeEvent
  | start
  | stop
  | jni (created : Bool)
  | server (k : ℕ) (created : Bool)
  | listener (k : ℕ) (ok : Bool) (count : ℕ)
  deriving DecidableEq, Repr

def ListenerPc.Finished (pc : ListenerPc) : Prop := pc = .returned ∨ pc = .returnedEarly

instance (pc : ListenerPc) : Decidable pc.Finished := inferInstanceAs (Decidable (_ ∨ _))

namespace Life

def init : Life where
  gServerRunning := false
  serverRunning := false
  nServers := 0
  server := fun _ => .done
  nListeners := 0
  listener := fun _ => .returned
  joined := fun _ => true
  listenerCount := 0
  leaked := 0
  pipeOpen := false
  pipeWritten := false
  alive := fun _ => none
  nthreads := 0
  dnsHandle := fun _ => false
  jni := .idle
  misuse := []
  stopReturned := false

def setServer (s : Life) (k : ℕ) (pc : ServerPc) : Life :=
  { s with server := Function.update s.server k pc }

def setListener (s : Life) (k : ℕ) (pc : ListenerPc) : Life :=
  { s with listener := Function.update s.listener k pc }

/-- `server_thread_func` with `socks5_server_main_dynamic`. -/
def serverStep (s : Life) (k : ℕ) (created : Bool) : Option Life :=
  match s.server k with
  | .load => some (s.setServer k (if s.serverRunning then .fail else .store))
  | .store => some { s.setServer k .create with serverRunning := true }
  | .create =>
      if created then
        some { s.setServer k .done with
          nListeners := s.nListeners + 1
          listener := Function.update s.listener (s.nListeners + 1) .pipe
          joined := Function.update s.joined (s.nListeners + 1) false }
      else
        -- the result of pthread_create is not looked at
        some (s.setServer k .done)
  | .fail => some { s.setServer k .done with gServerRunning := false }
  | .done => none

/-- `reconcile_listeners`; `count` is the number of sockets the table ends up with. -/
def reconcileListeners (s : Life) (count : ℕ) : Life :=
  if s.serverRunning then { s with listenerCount := count } else s

/-- One creation of `listener_task`; only `pthread_create` can fail, and nothing looks at that. -/
def create (s : Life) (k : ℕ) (p : Part) (created : Bool) : Life :=
  match p with
  | .worker _ | .poolThread _ | .udpWorker _ =>
      if created then { s with alive := Function.update s.alive p (some k) } else s
  | .dnsThread i =>
      -- the handle is zeroed before pthread_create
      { s with
        dnsHandle := Function.update s.dnsHandle i created
        alive := if created then Function.update s.alive p (some k) else s.alive }
  | .poolThreads =>
      { s with
        nthreads := handshakePoolSize
        alive := Function.update s.alive p (some k) }
  | .listLock _ | .poolJobs | .poolLock | .udpListLock _ =>
      { s with alive := Function.update s.alive p (some k) }

/-- `listener_task` of listener `k`. -/
def listenerStep (s : Life) (k : ℕ) (ok : Bool) (count : ℕ) : Option Life :=
  match s.listener k with
  | .pipe =>
      if ok then
        some { s.setListener k .zeroCount with pipeOpen := true, pipeWritten := false }
      else
        some (s.setListener k .returnedEarly)
  | .zeroCount =>
      some { s.setListener k .firstReconcile with
        leaked := s.leaked + s.listenerCount
        listenerCount := 0 }
  | .firstReconcile => some ((s.reconcileListeners count).setListener k .check)
  | .check =>
      some (s.setListener k (if s.listenerCount = 0 then .failStore else .build Part.startOrder))
  | .failStore => some { s.setListener k .failClose with serverRunning := false }
  | .failClose => some { s.setListener k .returnedEarly with pipeOpen := false }
  | .build [] => some (s.setListener k .loopTest)
  | .build (p :: rest) => some ((s.create k p ok).setListener k (.build rest))
  | .loopTest =>
      some (s.setListener k (if s.serverRunning then .loopReconcile else .finalClose))
  | .loopReconcile => some ((s.reconcileListeners count).setListener k .poll)
  | .poll =>
      -- the shutdown pipe, or connections to accept, or the timeout of one second
      some (s.setListener k (if ok && s.pipeWritten then .finalClose else .loopTest))
  | .finalClose => some { s.setListener k .returned with listenerCount := 0 }
  | .returned | .returnedEarly => none

/-- The current listener created the part, and it has not been torn down since. -/
def Owned (s : Life) (p : Part) : Prop := s.alive p = some s.nListeners

instance (s : Life) (p : Part) : Decidable (s.Owned p) := inferInstanceAs (Decidable (_ = _))

/-- `pthread_join`, `pthread_mutex_destroy` or `free`. -/
def tearDown (s : Life) (p : Part) : Life :=
  { s with
    alive := Function.update s.alive p none
    misuse := if s.Owned p then s.misuse else s.misuse ++ [.part p] }

/-- What `socks5_server_quit` does for the part; `udp_dns_resolvers_stop` skips a zero handle. -/
def release (s : Life) (p : Part) : Life :=
  match p with
  | .dnsThread i =>
      if s.dnsHandle i then
        { s.tearDown p with dnsHandle := Function.update s.dnsHandle i false }
      else s
  | _ => s.tearDown p

/-- `native_start_socks5_server` and `native_stop_socks5_server` with `socks5_server_quit`, after
they have looked at `g_server_running`. -/
def jniStep (s : Life) (created : Bool) : Option Life :=
  match s.jni with
  | .idle => none
  | .startSet => some { s with gServerRunning := true, jni := .startCreate }
  | .startCreate =>
      if created then
        some { s with
          nServers := s.nServers + 1
          server := Function.update s.server (s.nServers + 1) .load
          jni := .idle }
      else
        some { s with jni := .idle }
  | .quitLoad => some { s with jni := if s.serverRunning then .quitStore else .joinServer }
  | .quitStore => some { s with serverRunning := false, jni := .quitClear }
  | .quitClear => some { s with listenerCount := 0, jni := .quitWake }
  | .quitWake => some { s with pipeWritten := s.pipeWritten || s.pipeOpen, jni := .quitJoin }
  | .quitJoin =>
      if s.joined s.nListeners then
        some { s with misuse := s.misuse ++ [.joinListener], jni := .poolShutdown }
      else if (s.listener s.nListeners).Finished then
        some { s with
          joined := Function.update s.joined s.nListeners true
          jni := .poolShutdown }
      else
        none
  | .poolShutdown =>
      some { s with
        misuse := if s.Owned .poolLock then s.misuse else s.misuse ++ [.jobPoolShutdown]
        jni := .joinPool 0 }
  | .joinPool i =>
      if i < s.nthreads then
        some { s.release (.poolThread i) with jni := .joinPool (i + 1) }
      else
        some { s with jni := .tear Part.quitOrder }
  | .tear [] => some { s with jni := .closePipe }
  | .tear (p :: rest) => some { s.release p with jni := .tear rest }
  | .closePipe => some { s with pipeOpen := false, jni := .joinServer }
  | .joinServer =>
      if s.server s.nServers = .done then some { s with jni := .stopEnd } else none
  | .stopEnd =>
      some { s with gServerRunning := false, stopReturned := true, jni := .idle }

def lifeStep (s : Life) : LifeEvent → Option Life
  | .start =>
      if s.jni = .idle then
        if s.gServerRunning then
          -- "Already running"
          some { s with stopReturned := false }
        else
          some { s with jni := .startSet, stopReturned := false }
      else none
  | .stop =>
      if s.jni = .idle then
        if s.gServerRunning then
          some { s with jni := .quitLoad }
        else
          -- "Not running"
          some { s with stopReturned := true }
      else none
  | .jni created => s.jniStep created
  | .server k created => s.serverStep k created
  | .listener k ok count => s.listenerStep k ok count

/-! ### What a step leaves alone -/

theorem serverStep_frame {s t : Life} {k : ℕ} {created : Bool}
    (h : s.serverStep k created = some t) :
    t.jni = s.jni ∧ t.alive = s.alive ∧ t.nServers = s.nServers ∧ t.misuse = s.misuse ∧
      t.nthreads = s.nthreads ∧ t.dnsHandle = s.dnsHandle ∧ t.listenerCount = s.listenerCount ∧
      t.leaked = s.leaked ∧ t.stopReturned = s.stopReturned := by
  unfold serverStep at h
  split at h
  · cases h; simp [setServer]
  · cases h; simp [setServer]
  · split at h <;> cases h <;> simp [setServer]
  · cases h; simp [setServer]
  · cases h

/-- A creation touches the table of parts, the size of the pool and the handles, nothing else. -/
theorem create_eq (s : Life) (k : ℕ) (p : Part) (created : Bool) :
    s.create k p created = { s with
      alive := (s.create k p created).alive
      nthreads := (s.create k p created).nthreads
      dnsHandle := (s.create k p created).dnsHandle } := by
  cases p <;> cases created <;> rfl

section

variable (s : Life) (k : ℕ) (p : Part) (created : Bool)

@[simp] theorem create_listener : (s.create k p created).listener = s.listener := by
  rw [create_eq]

@[simp] theorem create_nListeners : (s.create k p created).nListeners = s.nListeners := by
  rw [create_eq]

@[simp] theorem create_joined : (s.create k p created).joined = s.joined := by
  rw [create_eq]

@[simp] theorem create_leaked : (s.create k p created).leaked = s.leaked := by
  rw [create_eq]

theorem create_nthreads : (s.create k p created).nthreads =
    if p = .poolThreads then handshakePoolSize else s.nthreads := by
  cases p <;> cases created <;> rfl

end

theorem create_alive_of_ne {s : Life} {k : ℕ} {p q : Part} {created : Bool} (hq : q ≠ p) :
    (s.create k p created).alive q = s.alive q := by
  cases p <;> cases created <;> simp [create, hq]

theorem create_dnsHandle_of_ne {s : Life} {k i : ℕ} {p : Part} {created : Bool}
    (hp : p ≠ .dnsThread i) : (s.create k p created).dnsHandle i = s.dnsHandle i := by
  cases p with
  | dnsThread j =>
      have hij : i ≠ j := fun h => hp (congrArg Part.dnsThread h.symm)
      simp [create, hij]
  | _ => cases created <;> rfl

/-- Tearing down a part touches the table of parts, the handles and the record of misuse. -/
theorem release_eq (s : Life) (p : Part) :
    s.release p = { s with
      alive := (s.release p).alive
      dnsHandle := (s.release p).dnsHandle
      misuse := (s.release p).misuse } := by
  cases p with
  | dnsThread i =>
      unfold release
      simp only
      split <;> rfl
  | _ => rfl

theorem release_dnsHandle_of_ne {s : Life} {i : ℕ} {p : Part} (hp : p ≠ .dnsThread i) :
    (s.release p).dnsHandle i = s.dnsHandle i := by
  cases p with
  | dnsThread j =>
      have hij : i ≠ j := fun h => hp (congrArg Part.dnsThread h.symm)
      unfold release
      simp only
      split
      · exact Function.update_of_ne hij _ _
      · rfl
  | _ => rfl

theorem reconcileListeners_eq (s : Life) (count : ℕ) :
    s.reconcileListeners count =
      { s with listenerCount := if s.serverRunning then count else s.listenerCount } := by
  unfold reconcileListeners
  split <;> rfl

theorem listenerStep_not_finished {s t : Life} {k count : ℕ} {ok : Bool}
    (h : s.listenerStep k ok count = some t) : ¬(s.listener k).Finished := by
  rintro (hpc | hpc) <;> simp [listenerStep, hpc] at h

theorem listenerStep_frame {s t : Life} {k count : ℕ} {ok : Bool}
    (h : s.listenerStep k ok count = some t) :
    t.jni = s.jni ∧ t.server = s.server ∧ t.nServers = s.nServers ∧ t.misuse = s.misuse ∧
      t.nListeners = s.nListeners ∧ t.joined = s.joined ∧ t.gServerRunning = s.gServerRunning ∧
      t.stopReturned = s.stopReturned ∧ (∀ j, j ≠ k → t.listener j = s.listener j) ∧
      (t.serverRunning = s.serverRunning ∨
        s.listener k = .failStore ∧ t.serverRunning = false ∧ t.listener k = .failClose) := by
  have hother : ∀ pc j, j ≠ k → Function.update s.listener k pc j = s.listener j :=
    fun pc j hj => Function.update_of_ne hj pc s.listener
  unfold listenerStep at h
  split at h <;> rename_i hpc
  case h_1 => split at h <;> cases h <;> simpa [setListener] using hother _
  case h_5 =>
      cases h
      simpa [setListener, hpc] using hother _
  case h_8 p rest =>
      rw [create_eq] at h
      cases h
      simpa [setListener] using hother _
  case h_3 | h_10 =>
      rw [reconcileListeners_eq] at h
      cases h
      simpa [setListener] using hother _
  case h_13 | h_14 => cases h
  all_goals
    cases h
    simpa [setListener] using hother _

/-- Nothing is bound any more once `server_running` is 0. -/
theorem listenerStep_listenerCount {s t : Life} {k count : ℕ} {ok : Bool}
    (h : s.listenerStep k ok count = some t) (hrun : s.serverRunning = false)
    (hzero : s.listenerCount = 0) : t.listenerCount = 0 := by
  unfold listenerStep at h
  split at h
  case h_1 => split at h <;> cases h <;> exact hzero
  case h_3 | h_10 =>
      rw [reconcileListeners_eq, hrun] at h
      cases h
      exact hzero
  case h_8 p rest =>
      rw [create_eq] at h
      cases h
      exact hzero
  case h_13 | h_14 => cases h
  all_goals
    cases h
    first
    | exact hzero
    | rfl

end Life

/-- Start number `k` binds two addresses and creates everything, and a stop ends it. -/
def startStop (k : ℕ) : List LifeEvent :=
  List.flatten [[.start, .jni true, .jni true, .server k true, .server k true, .server k true,
      .listener k true 0, .listener k true 0, .listener k true 2, .listener k true 0],
    List.replicate (Part.startOrder.length + 2) (.listener k true 0),
    [.listener k true 2, .stop, .jni true, .jni true, .jni true, .jni true, .listener k true 0,
      .listener k true 0],
    List.replicate (handshakePoolSize + Part.quitOrder.length + 7) (.jni true)]

end FiveGProxy
