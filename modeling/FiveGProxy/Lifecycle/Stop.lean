import FiveGProxy.Lifecycle.Model

/-!
# What a stop leaves behind

When the server thread has got past `pthread_create(&listener_thread)` by the time
`socks5_server_quit` looks at `server_running`, the stop joins the listener thread and tears down
all it created (`stop_effective`). A stop that comes earlier returns while the start goes on.
-/

namespace FiveGProxy

open Steps

namespace Part

/-- `job_pool_init` has stored the size of the pool before it creates a thread of the pool. -/
def PoolFirst (nthreads : ℕ) (rest : List Part) : Prop :=
  ∀ done i after, rest = done ++ poolThread i :: after →
    poolThreads ∈ done ∨ nthreads = handshakePoolSize

theorem poolFirst_startOrder (nthreads : ℕ) : PoolFirst nthreads startOrder := by
  intro before i after heq
  left
  have hsplit : startOrder =
      (workers ++ [poolJobs]) ++ poolThreads :: (poolLock ::
        ((List.range handshakePoolSize).map poolThread ++ (udpWorkers ++ dnsThreads))) := by
    simp [startOrder, pool]
  rw [hsplit, List.append_eq_append_iff] at heq
  rcases heq with ⟨as, hbefore, has⟩ | ⟨bs, hworkers, hbs⟩
  · cases as with
    | nil => exact absurd (List.head_eq_of_cons_eq has) (by rintro ⟨⟩)
    | cons p as =>
        rw [hbefore, List.head_eq_of_cons_eq has]
        simp
  · have hmem : poolThread i ∈ workers ++ [poolJobs] := by
      cases bs with
      | nil => exact absurd (List.head_eq_of_cons_eq hbs) (by rintro ⟨⟩)
      | cons p bs =>
          rw [hworkers, List.head_eq_of_cons_eq hbs]
          simp
    simp [workers] at hmem

theorem PoolFirst.tail {nthreads : ℕ} {p : Part} {rest : List Part}
    (h : PoolFirst nthreads (p :: rest)) (hp : p ≠ poolThreads) : PoolFirst nthreads rest := by
  intro before i after heq
  have hcons := h (p :: before) i after (by rw [heq, List.cons_append])
  exact hcons.imp_left fun hmem => (List.mem_cons.mp hmem).resolve_left (Ne.symm hp)

end Part

def ListenerPc.Early : ListenerPc → Prop
  | .pipe | .zeroCount | .firstReconcile | .check | .failStore | .failClose => True
  | _ => False

namespace Life

/-- Nothing of any start is left, and no thread is on its way to make something. -/
structure Settled (s : Life) : Prop where
  serverRunning : s.serverRunning = false
  server : ∀ k, s.server k = .done
  listener : ∀ k, (s.listener k).Finished
  alive : ∀ p, s.alive p = none
  listenerCount : s.listenerCount = 0
  leaked : s.leaked = 0

/-- The condition on a stop: the server thread has created the listener thread when
`socks5_server_quit` looks at `server_running`, and a listener thread that has failed to bind has
ended. -/
def StopAfterStart (s : Life) : LifeEvent → Prop
  | .jni _ => s.jni = .quitLoad →
      s.server s.nServers = .done ∧
        (s.serverRunning = false → (s.listener s.nListeners).Finished)
  | _ => True

instance (s : Life) : (e : LifeEvent) → Decidable (StopAfterStart s e)
  | .jni _ => inferInstanceAs (Decidable (_ → _))
  | .start | .stop | .server _ _ | .listener _ _ _ => inferInstanceAs (Decidable True)

/-- What holds of the listener threads and of what they created. -/
structure Engine (s : Life) : Prop where
  older : ∀ k, k ≠ s.nListeners → (s.listener k).Finished
  joined : ∀ k, s.joined k = true → (s.listener k).Finished
  leaked : s.leaked = 0
  inRange : ∀ p, s.alive p ≠ none → p.InRange s.nthreads
  handle : ∀ i, s.alive (.dnsThread i) ≠ none → s.dnsHandle i = true
  nthreads : s.nthreads ≤ handshakePoolSize
  building : ∀ rest, s.listener s.nListeners = .build rest →
    (∀ p ∈ rest, p.InRange handshakePoolSize ∧ s.alive p = none) ∧ rest.Nodup ∧
      Part.PoolFirst s.nthreads rest
  early : (s.listener s.nListeners).Early →
    (∀ p, s.alive p = none) ∧ (s.listener s.nListeners ≠ .check → s.listenerCount = 0)

/-- The latest start has not created its listener thread yet. -/
structure Calm (s : Life) : Prop where
  listener : ∀ k, (s.listener k).Finished
  alive : ∀ p, s.alive p = none
  listenerCount : s.listenerCount = 0

def Started (s : Life) : Prop :=
  match s.server s.nServers with
  | .load | .store => s.serverRunning = false ∧ Calm s
  | .create => s.serverRunning = true ∧ Calm s
  | .fail => False
  | .done => s.serverRunning = false →
      (∀ p, s.alive p = none) ∧ s.listenerCount = 0 ∧
        ((s.listener s.nListeners).Finished ∨ s.listener s.nListeners = .failClose)

/-- `socks5_server_quit` has joined the listener thread. -/
structure Down (s : Life) : Prop where
  serverRunning : s.serverRunning = false
  server : s.server s.nServers = .done
  listener : ∀ k, (s.listener k).Finished
  listenerCount : s.listenerCount = 0

def Phase (s : Life) : Prop :=
  match s.jni with
  | .idle => if s.gServerRunning then Started s else Settled s
  | .startSet | .joinServer | .stopEnd => Settled s
  | .startCreate => s.gServerRunning = true ∧ Settled s
  | .quitLoad => Started s
  | .quitStore => s.server s.nServers = .done
  | .quitClear => s.server s.nServers = .done ∧ s.serverRunning = false
  | .quitWake | .quitJoin =>
      s.server s.nServers = .done ∧ s.serverRunning = false ∧ s.listenerCount = 0
  | .poolShutdown => Down s
  | .joinPool i => Down s ∧ ∀ j < i, s.alive (.poolThread j) = none
  | .tear rest => Down s ∧ ∀ p, s.alive p ≠ none → p ∈ rest
  | .closePipe => Down s ∧ ∀ p, s.alive p = none

structure StopInv (s : Life) : Prop where
  olderServers : ∀ k, k ≠ s.nServers → s.server k = .done
  engine : Engine s
  phase : Phase s
  stopReturned : s.stopReturned = true → s.jni = .idle ∧ s.gServerRunning = false

/-! ### The listener threads -/

theorem Engine.move {s t : Life} {pc : ListenerPc} (h : Engine s)
    (hcur : ¬(s.listener s.nListeners).Finished) (hn : t.nListeners = s.nListeners)
    (hlistener : t.listener = Function.update s.listener s.nListeners pc)
    (hjoined : t.joined = s.joined) (halive : t.alive = s.alive) (hnthreads : t.nthreads = s.nthreads)
    (hhandle : t.dnsHandle = s.dnsHandle) (hleaked : t.leaked = 0)
    (hbuild : ∀ rest, pc = .build rest →
      (∀ p ∈ rest, p.InRange handshakePoolSize ∧ s.alive p = none) ∧ rest.Nodup ∧
        Part.PoolFirst s.nthreads rest)
    (hearly : pc.Early → (∀ p, s.alive p = none) ∧ (pc ≠ .check → t.listenerCount = 0)) :
    Engine t where
  older := by
    intro k hk
    rw [hlistener, Function.update_of_ne (hn ▸ hk)]
    exact h.older k (hn ▸ hk)
  joined := by
    intro k hk
    rw [hjoined] at hk
    have hne : k ≠ s.nListeners := by
      rintro rfl
      exact hcur (h.joined _ hk)
    rw [hlistener, Function.update_of_ne hne]
    exact h.joined k hk
  leaked := hleaked
  inRange := by
    rw [halive, hnthreads]
    exact h.inRange
  handle := by
    rw [halive, hhandle]
    exact h.handle
  nthreads := by
    rw [hnthreads]
    exact h.nthreads
  building := by
    rw [hn, hlistener, Function.update_self, hnthreads, halive]
    exact hbuild
  early := by
    rw [hn, hlistener, Function.update_self, halive]
    exact hearly

theorem Engine.create {s : Life} {p : Part} {rest : List Part} {created : Bool} (h : Engine s)
    (hpc : s.listener s.nListeners = .build (p :: rest)) :
    Engine ((s.create s.nListeners p created).setListener s.nListeners (.build rest)) := by
  obtain ⟨hrest, hnodup, hfirst⟩ := h.building _ hpc
  obtain ⟨hp, hnone⟩ := hrest p List.mem_cons_self
  have hne : ∀ q ∈ rest, q ≠ p := by
    rintro q hq rfl
    exact (List.nodup_cons.mp hnodup).1 hq
  have hcur : ¬(s.listener s.nListeners).Finished := by
    rw [hpc]
    exact nofun
  have hnthreads := create_nthreads s s.nListeners p created
  have hle : s.nthreads ≤ (s.create s.nListeners p created).nthreads := by
    rw [hnthreads]
    split
    · exact h.nthreads
    · exact Nat.le_refl _
  have hrange : p.InRange (s.create s.nListeners p created).nthreads := by
    cases p with
    | poolThread i =>
        have hfull := (hfirst [] i rest rfl).resolve_left (by rintro ⟨⟩)
        rw [hnthreads, if_neg (by rintro ⟨⟩), hfull]
        exact hp
    | _ => exact hp
  constructor
  case older =>
    intro k hk
    have hk' : k ≠ s.nListeners := by simpa [setListener] using hk
    simpa [setListener, hk'] using h.older k hk'
  case joined =>
    intro k hk
    have hk' : k ≠ s.nListeners := by
      rintro rfl
      exact hcur (h.joined _ (by simpa [setListener] using hk))
    simpa [setListener, hk'] using h.older k hk'
  case leaked => simpa [setListener] using h.leaked
  case inRange =>
    intro q hq
    by_cases hqp : q = p
    · exact hqp ▸ hrange
    · have hq' : s.alive q ≠ none := by rwa [← create_alive_of_ne hqp]
      exact (h.inRange q hq').mono hle
  case handle =>
    intro i hi
    by_cases hip : p = .dnsThread i
    · subst hip
      cases created
      · exact absurd hnone hi
      · simp [setListener, Life.create]
    · have hi' : s.alive (.dnsThread i) ≠ none := by rwa [← create_alive_of_ne (Ne.symm hip)]
      exact (create_dnsHandle_of_ne hip).trans (h.handle i hi')
  case nthreads =>
    show (s.create s.nListeners p created).nthreads ≤ handshakePoolSize
    rw [hnthreads]
    split
    · exact Nat.le_refl _
    · exact h.nthreads
  case building =>
    intro rest' hrest'
    have heq : rest' = rest := by simpa [setListener, eq_comm] using hrest'
    subst heq
    refine ⟨fun q hq => ?_, (List.nodup_cons.mp hnodup).2, ?_⟩
    · obtain ⟨hqrange, hqnone⟩ := hrest q (List.mem_cons_of_mem p hq)
      exact ⟨hqrange, (create_alive_of_ne (hne q hq)).trans hqnone⟩
    · by_cases hpool : p = .poolThreads
      · intro before i after _
        right
        exact hnthreads.trans (if_pos hpool)
      · refine (congrArg (Part.PoolFirst · _) (hnthreads.trans (if_neg hpool))).mpr ?_
        exact hfirst.tail hpool
  case early =>
    intro hearly
    simp [setListener, ListenerPc.Early] at hearly

theorem Engine.listenerStep {s t : Life} {k count : ℕ} {ok : Bool} (h : Engine s)
    (hstep : s.listenerStep k ok count = some t) : Engine t := by
  have hcur := listenerStep_not_finished hstep
  have hk : k = s.nListeners := by
    by_contra hne
    exact hcur (h.older k hne)
  subst hk
  unfold Life.listenerStep at hstep
  cases hpc : s.listener s.nListeners with
  | pipe =>
      obtain ⟨halive, hcount⟩ := h.early (by rw [hpc]; trivial)
      rw [hpc] at hstep hcount
      cases ok <;> cases hstep
      · exact h.move hcur rfl rfl rfl rfl rfl rfl h.leaked (by rintro _ ⟨⟩) (by rintro ⟨⟩)
      · exact h.move hcur rfl rfl rfl rfl rfl rfl h.leaked (by rintro _ ⟨⟩)
          fun _ => ⟨halive, fun _ => hcount (by rintro ⟨⟩)⟩
  | zeroCount =>
      obtain ⟨halive, hcount⟩ := h.early (by rw [hpc]; trivial)
      rw [hpc] at hstep hcount
      cases hstep
      refine h.move hcur rfl rfl rfl rfl rfl rfl ?_ (by rintro _ ⟨⟩) fun _ => ⟨halive, fun _ => rfl⟩
      calc s.leaked + s.listenerCount = s.leaked := by rw [hcount (by rintro ⟨⟩), Nat.add_zero]
        _ = 0 := h.leaked
  | firstReconcile =>
      obtain ⟨halive, -⟩ := h.early (by rw [hpc]; trivial)
      rw [hpc, reconcileListeners_eq] at hstep
      cases hstep
      exact h.move hcur rfl rfl rfl rfl rfl rfl h.leaked (by rintro _ ⟨⟩)
        fun _ => ⟨halive, fun hne => (hne rfl).elim⟩
  | check =>
      obtain ⟨halive, -⟩ := h.early (by rw [hpc]; trivial)
      rw [hpc] at hstep
      cases hstep
      by_cases hzero : s.listenerCount = 0
      · rw [if_pos hzero]
        exact h.move hcur rfl rfl rfl rfl rfl rfl h.leaked (by rintro _ ⟨⟩)
          fun _ => ⟨halive, fun _ => hzero⟩
      · rw [if_neg hzero]
        refine h.move hcur rfl rfl rfl rfl rfl rfl h.leaked ?_ (by rintro ⟨⟩)
        rintro rest ⟨⟩
        exact ⟨fun p hp => ⟨Part.mem_startOrder.mp hp, halive p⟩, Part.nodup_startOrder,
          Part.poolFirst_startOrder _⟩
  | failStore =>
      obtain ⟨halive, hcount⟩ := h.early (by rw [hpc]; trivial)
      rw [hpc] at hstep hcount
      cases hstep
      exact h.move hcur rfl rfl rfl rfl rfl rfl h.leaked (by rintro _ ⟨⟩)
        fun _ => ⟨halive, fun _ => hcount (by rintro ⟨⟩)⟩
  | build rest =>
      rw [hpc] at hstep
      cases rest with
      | nil =>
          cases hstep
          exact h.move hcur rfl rfl rfl rfl rfl rfl h.leaked (by rintro _ ⟨⟩) (by rintro ⟨⟩)
      | cons p rest =>
          cases hstep
          exact h.create hpc
  | loopReconcile =>
      rw [hpc, reconcileListeners_eq] at hstep
      cases hstep
      exact h.move hcur rfl rfl rfl rfl rfl rfl h.leaked (by rintro _ ⟨⟩) (by rintro ⟨⟩)
  | loopTest =>
      rw [hpc] at hstep
      cases hstep
      cases s.serverRunning <;> exact h.move hcur rfl rfl rfl rfl rfl rfl h.leaked (by rintro _ ⟨⟩)
        (by rintro ⟨⟩)
  | poll =>
      rw [hpc] at hstep
      cases hstep
      cases ok && s.pipeWritten <;>
        exact h.move hcur rfl rfl rfl rfl rfl rfl h.leaked (by rintro _ ⟨⟩) (by rintro ⟨⟩)
  | failClose | finalClose =>
      rw [hpc] at hstep
      cases hstep
      exact h.move hcur rfl rfl rfl rfl rfl rfl h.leaked (by rintro _ ⟨⟩) (by rintro ⟨⟩)
  | returned | returnedEarly =>
      rw [hpc] at hstep
      cases hstep

/-! ### The other threads -/

theorem Engine.congr {s t : Life} (h : Engine s) (hn : t.nListeners = s.nListeners)
    (hlistener : t.listener = s.listener) (hjoined : t.joined = s.joined)
    (hleaked : t.leaked = s.leaked) (halive : t.alive = s.alive) (hnthreads : t.nthreads = s.nthreads)
    (hhandle : t.dnsHandle = s.dnsHandle)
    (hcount : t.listenerCount = s.listenerCount ∨ t.listenerCount = 0) : Engine t where
  older := by
    rw [hn, hlistener]
    exact h.older
  joined := by
    rw [hjoined, hlistener]
    exact h.joined
  leaked := hleaked.trans h.leaked
  inRange := by
    rw [halive, hnthreads]
    exact h.inRange
  handle := by
    rw [halive, hhandle]
    exact h.handle
  nthreads := by
    rw [hnthreads]
    exact h.nthreads
  building := by
    rw [hn, hlistener, halive, hnthreads]
    exact h.building
  early := by
    rw [hn, hlistener, halive]
    intro hpc
    obtain ⟨hnone, hzero⟩ := h.early hpc
    exact ⟨hnone, fun hne => hcount.elim (fun heq => heq.trans (hzero hne)) id⟩

/-- `socks5_server_main_dynamic` creates a listener thread while nothing of an older one is left. -/
theorem Engine.newListener {s t : Life} (h : Engine s) (hcalm : Calm s)
    (hn : t.nListeners = s.nListeners + 1)
    (hlistener : t.listener = Function.update s.listener (s.nListeners + 1) .pipe)
    (hjoined : t.joined = Function.update s.joined (s.nListeners + 1) false)
    (hleaked : t.leaked = s.leaked) (halive : t.alive = s.alive) (hnthreads : t.nthreads = s.nthreads)
    (hhandle : t.dnsHandle = s.dnsHandle) (hcount : t.listenerCount = s.listenerCount) : Engine t where
  older := by
    intro k hk
    rw [hlistener, Function.update_of_ne (hn ▸ hk)]
    exact hcalm.listener k
  joined := by
    intro k hk
    rw [hjoined] at hk
    have hne : k ≠ s.nListeners + 1 := by
      rintro rfl
      rw [Function.update_self] at hk
      cases hk
    rw [hlistener, Function.update_of_ne hne]
    exact hcalm.listener k
  leaked := hleaked.trans h.leaked
  inRange := by
    rw [halive, hnthreads]
    exact h.inRange
  handle := by
    rw [halive, hhandle]
    exact h.handle
  nthreads := by
    rw [hnthreads]
    exact h.nthreads
  building := by
    rw [hn, hlistener, Function.update_self]
    exact nofun
  early := by
    rw [hn, hlistener, halive, hcount]
    exact fun _ => ⟨hcalm.alive, fun _ => hcalm.listenerCount⟩

theorem release_alive {s : Life} {p : Part}
    (hhandle : ∀ i, s.alive (.dnsThread i) ≠ none → s.dnsHandle i = true) :
    (s.release p).alive = Function.update s.alive p none := by
  cases p with
  | dnsThread i =>
      unfold release
      by_cases hset : s.dnsHandle i = true
      · simp only [if_pos hset]
        rfl
      · have hnone : s.alive (.dnsThread i) = none := by
          by_contra hne
          exact hset (hhandle i hne)
        simp only [if_neg hset, ← hnone, Function.update_eq_self]
  | _ => rfl

theorem release_alive_ne {s : Life} {p q : Part}
    (hhandle : ∀ i, s.alive (.dnsThread i) ≠ none → s.dnsHandle i = true)
    (hq : (s.release p).alive q ≠ none) : q ≠ p ∧ s.alive q ≠ none := by
  rw [release_alive hhandle] at hq
  have hne : q ≠ p := by
    rintro rfl
    exact hq (Function.update_self ..)
  rw [Function.update_of_ne hne] at hq
  exact ⟨hne, hq⟩

theorem Engine.release {s t : Life} {p : Part} (h : Engine s) (hdown : ∀ k, (s.listener k).Finished)
    (hn : t.nListeners = s.nListeners) (hlistener : t.listener = s.listener)
    (hleaked : t.leaked = s.leaked) (halive : t.alive = (s.release p).alive)
    (hnthreads : t.nthreads = s.nthreads) (hhandle : t.dnsHandle = (s.release p).dnsHandle) :
    Engine t where
  older := by
    rw [hlistener]
    exact fun k _ => hdown k
  joined := by
    rw [hlistener]
    exact fun k _ => hdown k
  leaked := hleaked.trans h.leaked
  inRange := by
    rw [halive, hnthreads]
    exact fun q hq => h.inRange q (release_alive_ne h.handle hq).2
  handle := by
    rw [halive, hhandle]
    intro i hi
    obtain ⟨hne, hi'⟩ := release_alive_ne h.handle hi
    rw [release_dnsHandle_of_ne (Ne.symm hne)]
    exact h.handle i hi'
  nthreads := by
    rw [hnthreads]
    exact h.nthreads
  building := by
    rw [hn, hlistener]
    intro rest hpc
    exact absurd (hdown s.nListeners) (by rw [hpc]; exact nofun)
  early := by
    rw [hn, hlistener]
    intro hpc
    rcases hdown s.nListeners with hret | hret <;> simp [hret, ListenerPc.Early] at hpc

/-! ### The calls of the JNI layer -/

theorem stopReturned_false {s : Life} (h : StopInv s) (hpc : s.jni ≠ .idle) :
    s.stopReturned = false := by
  cases hret : s.stopReturned with
  | false => rfl
  | true => exact absurd (h.stopReturned hret).1 hpc

/-- A step of a call that changes no server and is not the last one. -/
theorem StopInv.call {s t : Life} (h : StopInv s) (hpc : s.jni ≠ .idle)
    (hserver : t.server = s.server) (hn : t.nServers = s.nServers)
    (hret : t.stopReturned = s.stopReturned) (hengine : Engine t) (hphase : Phase t) : StopInv t where
  olderServers := by
    rw [hserver, hn]
    exact h.olderServers
  engine := hengine
  phase := hphase
  stopReturned := by
    rw [hret, stopReturned_false h hpc]
    exact nofun

theorem StopInv.jniStep {s t : Life} {created : Bool} (h : StopInv s)
    (hcond : StopAfterStart s (.jni created)) (hstep : s.jniStep created = some t) : StopInv t := by
  have hengine := h.engine
  have hphase := h.phase
  have hnotIdle : s.jni ≠ .idle := by
    intro hpc
    rw [Life.jniStep, hpc] at hstep
    cases hstep
  unfold Phase at hphase
  unfold Life.jniStep at hstep
  cases hpc : s.jni with
  | idle => exact absurd hpc hnotIdle
  | startSet =>
      rw [hpc] at hstep hphase
      cases hstep
      refine h.call hnotIdle rfl rfl rfl
        (hengine.congr rfl rfl rfl rfl rfl rfl rfl (Or.inl rfl)) ?_
      exact ⟨rfl, hphase.1, hphase.2, hphase.3, hphase.4, hphase.5, hphase.6⟩
  | startCreate =>
      rw [hpc] at hstep hphase
      obtain ⟨hflag, hsettled⟩ := hphase
      simp only at hstep
      split at hstep
      case isTrue =>
        cases hstep
        refine ⟨fun k hk => ?_, hengine.congr rfl rfl rfl rfl rfl rfl rfl (Or.inl rfl), ?_, ?_⟩
        · exact (Function.update_of_ne hk _ _).trans (hsettled.server k)
        · simp only [Phase, Started, hflag, if_true, Function.update_self]
          exact ⟨hsettled.serverRunning, hsettled.listener, hsettled.alive, hsettled.listenerCount⟩
        · exact fun hret => absurd (h.stopReturned hret).1 hnotIdle
      case isFalse =>
        cases hstep
        refine h.call hnotIdle rfl rfl rfl
          (hengine.congr rfl rfl rfl rfl rfl rfl rfl (Or.inl rfl)) ?_
        simp only [Phase, Started, hflag, if_true, hsettled.server]
        exact fun _ => ⟨hsettled.alive, hsettled.listenerCount, Or.inl (hsettled.listener _)⟩
  | quitLoad =>
      obtain ⟨hdone, hfinished⟩ := hcond hpc
      rw [hpc] at hstep hphase
      simp only [Started, hdone] at hphase
      cases hrun : s.serverRunning with
      | true =>
          simp only [hrun, if_true] at hstep
          cases hstep
          exact h.call hnotIdle rfl rfl rfl
            (hengine.congr rfl rfl rfl rfl rfl rfl rfl (Or.inl rfl)) hdone
      | false =>
          simp only [hrun, Bool.false_eq_true, if_false] at hstep
          cases hstep
          obtain ⟨halive, hcount, -⟩ := hphase hrun
          refine h.call hnotIdle rfl rfl rfl
            (hengine.congr rfl rfl rfl rfl rfl rfl rfl (Or.inl rfl)) ?_
          refine ⟨rfl, fun k => ?_, fun k => ?_, halive, hcount, hengine.leaked⟩
          · by_cases hk : k = s.nServers
            · exact hk ▸ hdone
            · exact h.olderServers k hk
          · by_cases hk : k = s.nListeners
            · exact hk ▸ hfinished hrun
            · exact hengine.older k hk
  | quitStore =>
      rw [hpc] at hstep hphase
      cases hstep
      exact h.call hnotIdle rfl rfl rfl
        (hengine.congr rfl rfl rfl rfl rfl rfl rfl (Or.inl rfl)) ⟨hphase, rfl⟩
  | quitClear =>
      rw [hpc] at hstep hphase
      cases hstep
      exact h.call hnotIdle rfl rfl rfl
        (hengine.congr rfl rfl rfl rfl rfl rfl rfl (Or.inr rfl)) ⟨hphase.1, hphase.2, rfl⟩
  | quitWake =>
      rw [hpc] at hstep hphase
      cases hstep
      exact h.call hnotIdle rfl rfl rfl
        (hengine.congr rfl rfl rfl rfl rfl rfl rfl (Or.inl rfl)) hphase
  | quitJoin =>
      rw [hpc] at hstep hphase
      obtain ⟨hserver, hrun, hcount⟩ := hphase
      have hdown : (s.listener s.nListeners).Finished → ∀ k, (s.listener k).Finished := by
        intro hlatest k
        by_cases hk : k = s.nListeners
        · exact hk ▸ hlatest
        · exact hengine.older k hk
      simp only at hstep
      split at hstep
      case isTrue hjoined =>
        cases hstep
        exact h.call hnotIdle rfl rfl rfl
          (hengine.congr rfl rfl rfl rfl rfl rfl rfl (Or.inl rfl))
          ⟨hrun, hserver, hdown (hengine.joined _ hjoined), hcount⟩
      case isFalse =>
        split at hstep
        case isTrue hlatest =>
          cases hstep
          refine h.call hnotIdle rfl rfl rfl ?_ ⟨hrun, hserver, hdown hlatest, hcount⟩
          exact ⟨hengine.older, fun k _ => hdown hlatest k, hengine.leaked, hengine.inRange,
            hengine.handle, hengine.nthreads, hengine.building, hengine.early⟩
        case isFalse => cases hstep
  | poolShutdown =>
      rw [hpc] at hstep hphase
      cases hstep
      exact h.call hnotIdle rfl rfl rfl
        (hengine.congr rfl rfl rfl rfl rfl rfl rfl (Or.inl rfl))
        ⟨⟨hphase.1, hphase.2, hphase.3, hphase.4⟩, (by rintro _ ⟨⟩)⟩
  | joinPool i =>
      rw [hpc] at hstep hphase
      obtain ⟨hdown, hbefore⟩ := hphase
      simp only at hstep
      split at hstep
      case isTrue =>
        cases hstep
        refine h.call hnotIdle rfl rfl rfl
          (hengine.release (p := .poolThread i) hdown.listener rfl rfl rfl rfl rfl rfl) ?_
        refine ⟨⟨hdown.1, hdown.2, hdown.3, hdown.4⟩, fun j hj => ?_⟩
        show (s.release (.poolThread i)).alive (.poolThread j) = none
        by_contra hne
        obtain ⟨hji, halive⟩ := release_alive_ne hengine.handle hne
        refine halive (hbefore j (Nat.lt_of_le_of_ne (Nat.le_of_lt_succ hj) ?_))
        exact fun heq => hji (congrArg Part.poolThread heq)
      case isFalse hlast =>
        cases hstep
        refine h.call hnotIdle rfl rfl rfl
          (hengine.congr rfl rfl rfl rfl rfl rfl rfl (Or.inl rfl)) ?_
        refine ⟨⟨hdown.1, hdown.2, hdown.3, hdown.4⟩, fun p hp => Part.mem_quitOrder.mpr ?_⟩
        have hrange := hengine.inRange p hp
        cases p with
        | poolThread j =>
            exact absurd (hbefore j (Nat.lt_of_lt_of_le hrange (Nat.not_lt.mp hlast))) hp
        | _ => exact hrange
  | tear rest =>
      rw [hpc] at hstep hphase
      obtain ⟨hdown, hrest⟩ := hphase
      cases rest with
      | nil =>
          cases hstep
          refine h.call hnotIdle rfl rfl rfl
            (hengine.congr rfl rfl rfl rfl rfl rfl rfl (Or.inl rfl)) ?_
          refine ⟨⟨hdown.1, hdown.2, hdown.3, hdown.4⟩, fun p => ?_⟩
          by_contra hp
          exact List.not_mem_nil (hrest p hp)
      | cons p rest =>
          cases hstep
          rw [release_eq]
          refine h.call hnotIdle rfl rfl rfl
            (hengine.release (p := p) hdown.listener rfl rfl rfl rfl rfl rfl) ?_
          refine ⟨⟨hdown.1, hdown.2, hdown.3, hdown.4⟩, fun q hq => ?_⟩
          obtain ⟨hqp, halive⟩ := release_alive_ne hengine.handle hq
          exact (List.mem_cons.mp (hrest q halive)).resolve_left hqp
  | closePipe =>
      rw [hpc] at hstep hphase
      cases hstep
      obtain ⟨hdown, halive⟩ := hphase
      refine h.call hnotIdle rfl rfl rfl
        (hengine.congr rfl rfl rfl rfl rfl rfl rfl (Or.inl rfl)) ?_
      refine ⟨hdown.1, fun k => ?_, hdown.3, halive, hdown.4, hengine.leaked⟩
      by_cases hk : k = s.nServers
      · exact hk ▸ hdown.server
      · exact h.olderServers k hk
  | joinServer =>
      rw [hpc] at hstep hphase
      simp only at hstep
      split at hstep
      case isTrue =>
        cases hstep
        refine h.call hnotIdle rfl rfl rfl
          (hengine.congr rfl rfl rfl rfl rfl rfl rfl (Or.inl rfl)) ?_
        exact ⟨hphase.1, hphase.2, hphase.3, hphase.4, hphase.5, hphase.6⟩
      case isFalse => cases hstep
  | stopEnd =>
      rw [hpc] at hstep hphase
      cases hstep
      refine ⟨h.olderServers, hengine.congr rfl rfl rfl rfl rfl rfl rfl (Or.inl rfl), ?_,
        fun _ => ⟨rfl, rfl⟩⟩
      exact ⟨hphase.1, hphase.2, hphase.3, hphase.4, hphase.5, hphase.6⟩

theorem Phase.server_done {s : Life} (h : Phase s) (hidle : s.jni ≠ .idle) (hload : s.jni ≠ .quitLoad) :
    s.server s.nServers = .done := by
  unfold Phase at h
  cases hpc : s.jni with
  | idle => exact absurd hpc hidle
  | quitLoad => exact absurd hpc hload
  | startSet | joinServer | stopEnd =>
      rw [hpc] at h
      exact h.server _
  | startCreate =>
      rw [hpc] at h
      exact h.2.server _
  | quitStore =>
      rw [hpc] at h
      exact h
  | quitClear | quitWake | quitJoin =>
      rw [hpc] at h
      exact h.1
  | poolShutdown =>
      rw [hpc] at h
      exact h.server
  | joinPool i | tear rest | closePipe =>
      rw [hpc] at h
      exact h.1.server

/-- A server thread runs only while no stop has looked at the start. -/
theorem StopInv.started {s : Life} (h : StopInv s) (hserver : s.server s.nServers ≠ .done) :
    Started s ∧ (s.jni = .idle ∧ s.gServerRunning = true ∨ s.jni = .quitLoad) := by
  have hphase := h.phase
  by_cases hload : s.jni = .quitLoad
  · unfold Phase at hphase
    rw [hload] at hphase
    exact ⟨hphase, Or.inr hload⟩
  · have hidle : s.jni = .idle := by
      by_contra hne
      exact hserver (hphase.server_done hne hload)
    unfold Phase at hphase
    rw [hidle] at hphase
    cases hflag : s.gServerRunning with
    | false =>
        rw [hflag] at hphase
        exact absurd (hphase.server _) hserver
    | true =>
        rw [hflag] at hphase
        exact ⟨hphase, Or.inl ⟨hidle, rfl⟩⟩

/-- A step that touches neither the flags of the engine nor its threads. -/
theorem Started.congr {s t : Life} (h : Started s) (hserver : t.server = s.server)
    (hnServers : t.nServers = s.nServers) (hrun : t.serverRunning = s.serverRunning)
    (hn : t.nListeners = s.nListeners) (hlistener : t.listener = s.listener)
    (halive : t.alive = s.alive) (hcount : t.listenerCount = s.listenerCount) : Started t := by
  have hcalm : Calm s → Calm t := by
    intro hs
    refine ⟨?_, ?_, hcount.trans hs.listenerCount⟩
    · rw [hlistener]
      exact hs.listener
    · rw [halive]
      exact hs.alive
  unfold Started at h ⊢
  rw [hserver, hnServers, hrun, halive, hcount, hlistener, hn]
  cases hpc : s.server s.nServers with
  | load | store | create =>
      rw [hpc] at h
      exact h.imp_right hcalm
  | fail | done =>
      rw [hpc] at h
      exact h

theorem Started.phase {s : Life} (h : Started s)
    (hjni : s.jni = .idle ∧ s.gServerRunning = true ∨ s.jni = .quitLoad) : Phase s := by
  unfold Phase
  rcases hjni with ⟨hidle, hflag⟩ | hload
  · rw [hidle, hflag]
    exact h
  · rw [hload]
    exact h

theorem StopInv.serverStep {s t : Life} {k : ℕ} {created : Bool} (h : StopInv s)
    (hstep : s.serverStep k created = some t) : StopInv t := by
  have hne : s.server k ≠ .done := by
    intro hdone
    rw [Life.serverStep, hdone] at hstep
    cases hstep
  have hk : k = s.nServers := by
    by_contra hother
    exact hne (h.olderServers k hother)
  subst hk
  obtain ⟨hstarted, hjni⟩ := h.started hne
  have hret : s.stopReturned = false := by
    cases hs : s.stopReturned with
    | false => rfl
    | true =>
        obtain ⟨hidle, hflag⟩ := h.stopReturned hs
        rcases hjni with ⟨-, hset⟩ | hload
        · exact absurd (hflag.symm.trans hset) (by rintro ⟨⟩)
        · exact absurd (hidle.symm.trans hload) (by rintro ⟨⟩)
  have hothers : ∀ pc k, k ≠ s.nServers → Function.update s.server s.nServers pc k = .done :=
    fun pc k hk => (Function.update_of_ne hk _ _).trans (h.olderServers k hk)
  unfold Started at hstarted
  unfold Life.serverStep at hstep
  cases hpc : s.server s.nServers with
  | load =>
      rw [hpc] at hstep hstarted
      obtain ⟨hrun, hcalm⟩ := hstarted
      simp only [hrun, Bool.false_eq_true, if_false] at hstep
      cases hstep
      refine ⟨hothers _, h.engine.congr rfl rfl rfl rfl rfl rfl rfl (Or.inl rfl),
        Started.phase ?_ hjni, fun ht => absurd (hret.symm.trans ht) (by rintro ⟨⟩)⟩
      simp only [Started, setServer, Function.update_self]
      exact ⟨hrun, hcalm.1, hcalm.2, hcalm.3⟩
  | store =>
      rw [hpc] at hstep hstarted
      obtain ⟨hrun, hcalm⟩ := hstarted
      cases hstep
      refine ⟨hothers _, h.engine.congr rfl rfl rfl rfl rfl rfl rfl (Or.inl rfl),
        Started.phase ?_ hjni, fun ht => absurd (hret.symm.trans ht) (by rintro ⟨⟩)⟩
      simp only [Started, setServer, Function.update_self]
      exact ⟨trivial, hcalm.1, hcalm.2, hcalm.3⟩
  | create =>
      rw [hpc] at hstep hstarted
      obtain ⟨hrun, hcalm⟩ := hstarted
      cases created with
      | true =>
          cases hstep
          refine ⟨hothers _, h.engine.newListener hcalm rfl rfl rfl rfl rfl rfl rfl rfl,
            Started.phase ?_ hjni, fun ht => absurd (hret.symm.trans ht) (by rintro ⟨⟩)⟩
          simp only [Started, setServer, Function.update_self]
          exact fun hfalse => absurd (hrun.symm.trans hfalse) (by rintro ⟨⟩)
      | false =>
          cases hstep
          refine ⟨hothers _, h.engine.congr rfl rfl rfl rfl rfl rfl rfl (Or.inl rfl),
            Started.phase ?_ hjni, fun ht => absurd (hret.symm.trans ht) (by rintro ⟨⟩)⟩
          simp only [Started, setServer, Function.update_self]
          exact fun hfalse => absurd (hrun.symm.trans hfalse) (by rintro ⟨⟩)
  | fail =>
      rw [hpc] at hstarted
      exact hstarted.elim
  | done => exact absurd hpc hne

/-! ### The listener thread -/

theorem Started.listenerStep {s t : Life} {count : ℕ} {ok : Bool} (h : Started s) (hengine : Engine s)
    (hstep : s.listenerStep s.nListeners ok count = some t) : Started t := by
  have hcur := listenerStep_not_finished hstep
  obtain ⟨-, hserver, hnServers, -, hn, -, -, -, -, hrunning⟩ := listenerStep_frame hstep
  unfold Started at h ⊢
  rw [hserver, hnServers]
  cases hpc : s.server s.nServers with
  | load | store | create =>
      rw [hpc] at h
      exact absurd (h.2.listener _) hcur
  | fail =>
      rw [hpc] at h
      exact h
  | done =>
      rw [hpc] at h
      intro hrun
      rcases hrunning with hsame | ⟨hfail, -, -⟩
      · obtain ⟨halive, hcount, hfin⟩ := h (hsame.symm.trans hrun)
        have hclose := hfin.resolve_left hcur
        rw [Life.listenerStep, hclose] at hstep
        cases hstep
        exact ⟨halive, hcount, Or.inl (Or.inr (Function.update_self ..))⟩
      · obtain ⟨halive, hcount⟩ := hengine.early (by rw [hfail]; trivial)
        rw [hfail] at hcount
        rw [Life.listenerStep, hfail] at hstep
        cases hstep
        exact ⟨halive, hcount (by rintro ⟨⟩), Or.inr (Function.update_self ..)⟩

theorem Phase.listenerStep {s t : Life} {count : ℕ} {ok : Bool} (h : Phase s) (hengine : Engine s)
    (hstep : s.listenerStep s.nListeners ok count = some t) : Phase t := by
  have hcur := listenerStep_not_finished hstep
  obtain ⟨hjni, hserver, hnServers, -, -, -, hflag, -, -, hrunning⟩ := listenerStep_frame hstep
  have hrun : s.serverRunning = false → t.serverRunning = false := by
    intro hs
    rcases hrunning with hsame | ⟨-, ht, -⟩
    · exact hsame.trans hs
    · exact ht
  unfold Phase at h ⊢
  rw [hjni, hserver, hnServers, hflag]
  cases hpc : s.jni with
  | idle =>
      rw [hpc] at h
      cases hset : s.gServerRunning with
      | true =>
          rw [hset] at h
          exact Started.listenerStep h hengine hstep
      | false =>
          rw [hset] at h
          exact absurd (h.listener _) hcur
  | quitLoad =>
      rw [hpc] at h
      exact Started.listenerStep h hengine hstep
  | startSet | joinServer | stopEnd | poolShutdown =>
      rw [hpc] at h
      exact absurd (h.listener _) hcur
  | startCreate =>
      rw [hpc] at h
      exact absurd (h.2.listener _) hcur
  | joinPool i | tear rest | closePipe =>
      rw [hpc] at h
      exact absurd (h.1.listener _) hcur
  | quitStore =>
      rw [hpc] at h
      exact h
  | quitClear =>
      rw [hpc] at h
      exact ⟨h.1, hrun h.2⟩
  | quitWake | quitJoin =>
      rw [hpc] at h
      exact ⟨h.1, hrun h.2.1, listenerStep_listenerCount hstep h.2.1 h.2.2⟩

theorem StopInv.listenerStep {s t : Life} {k count : ℕ} {ok : Bool} (h : StopInv s)
    (hstep : s.listenerStep k ok count = some t) : StopInv t := by
  have hk : k = s.nListeners := by
    by_contra hne
    exact listenerStep_not_finished hstep (h.engine.older k hne)
  subst hk
  obtain ⟨hjni, hserver, hnServers, -, -, -, hflag, hret, -⟩ := listenerStep_frame hstep
  constructor
  · rw [hserver, hnServers]
    exact h.olderServers
  · exact h.engine.listenerStep hstep
  · exact h.phase.listenerStep h.engine hstep
  · rw [hret, hjni, hflag]
    exact h.stopReturned

/-! ### The runs -/

theorem StopInv.init : StopInv Life.init where
  olderServers := fun _ _ => rfl
  engine := by
    refine ⟨fun _ _ => Or.inl rfl, fun _ _ => Or.inl rfl, rfl, fun p h => absurd rfl h,
      fun _ h => absurd rfl h, Nat.zero_le _, fun rest h => absurd h nofun, fun h => h.elim⟩
  phase := ⟨rfl, fun _ => rfl, fun _ => Or.inl rfl, fun _ => rfl, rfl, rfl⟩
  stopReturned := nofun

theorem StopInv.step {s t : Life} {e : LifeEvent} (h : StopInv s) (hcond : StopAfterStart s e)
    (hstep : lifeStep s e = some t) : StopInv t := by
  cases e with
  | start =>
      have hphase := h.phase
      simp only [lifeStep] at hstep
      split at hstep
      case isFalse => cases hstep
      case isTrue hidle =>
      unfold Phase at hphase
      rw [hidle] at hphase
      split at hstep
      case isTrue hflag =>
        rw [if_pos hflag] at hphase
        cases hstep
        refine ⟨h.olderServers, h.engine.congr rfl rfl rfl rfl rfl rfl rfl (Or.inl rfl), ?_, nofun⟩
        exact Started.phase (Started.congr hphase rfl rfl rfl rfl rfl rfl rfl)
          (Or.inl ⟨hidle, hflag⟩)
      case isFalse hflag =>
        rw [if_neg hflag] at hphase
        cases hstep
        refine ⟨h.olderServers, h.engine.congr rfl rfl rfl rfl rfl rfl rfl (Or.inl rfl), ?_, nofun⟩
        exact ⟨hphase.1, hphase.2, hphase.3, hphase.4, hphase.5, hphase.6⟩
  | stop =>
      have hphase := h.phase
      simp only [lifeStep] at hstep
      split at hstep
      case isFalse => cases hstep
      case isTrue hidle =>
      unfold Phase at hphase
      rw [hidle] at hphase
      split at hstep
      case isTrue hflag =>
        rw [if_pos hflag] at hphase
        cases hstep
        refine ⟨h.olderServers, h.engine.congr rfl rfl rfl rfl rfl rfl rfl (Or.inl rfl),
          Started.congr hphase rfl rfl rfl rfl rfl rfl rfl, ?_⟩
        exact fun hret => absurd ((h.stopReturned hret).2.symm.trans hflag) nofun
      case isFalse hflag =>
        cases hstep
        refine ⟨h.olderServers, h.engine.congr rfl rfl rfl rfl rfl rfl rfl (Or.inl rfl), ?_, ?_⟩
        · show Phase { s with stopReturned := true }
          unfold Phase
          simp only [hidle, if_neg hflag] at hphase ⊢
          exact ⟨hphase.1, hphase.2, hphase.3, hphase.4, hphase.5, hphase.6⟩
        · exact fun _ => ⟨hidle, by simpa using hflag⟩
  | jni created => exact h.jniStep hcond hstep
  | server k created => exact h.serverStep hstep
  | listener k ok count => exact h.listenerStep hstep

theorem StopInv.settled {s : Life} (h : StopInv s) (hret : s.stopReturned = true) : Settled s := by
  obtain ⟨hidle, hflag⟩ := h.stopReturned hret
  have hphase := h.phase
  unfold Phase at hphase
  rw [hidle, hflag] at hphase
  exact hphase

end Life

/-- When every stop looks at `server_running` after the server thread has created the listener
thread, and not while a listener thread that could not bind is about to end, then once a stop has
returned nothing of any start is left, and nothing appears until the next start. -/
theorem stop_effective {as : List LifeEvent} {t : Life}
    (hmeets : Meets Life.lifeStep Life.StopAfterStart Life.init as)
    (hrun : run Life.lifeStep Life.init as = some t) (hret : t.stopReturned = true) : t.Settled :=
  (run_invariant_of_meets (fun _ _ _ h hcond hstep => h.step hcond hstep) Life.StopInv.init hmeets
    hrun).settled hret

theorem stop_effective_startStop :
    ∃ t, run Life.lifeStep Life.init (startStop 1) = some t ∧ t.nListeners = 1 ∧
      t.stopReturned = true ∧ t.Settled := by
  obtain ⟨t, hrun, hone, hret⟩ := exists_run_of_any (by decide +kernel :
    (run Life.lifeStep Life.init (startStop 1)).any
      (fun t => decide (t.nListeners = 1 ∧ t.stopReturned = true)) = true)
  exact ⟨t, hrun, hone, hret, stop_effective (by decide +kernel) hrun hret⟩

/-- A stop right after "Started": `server_running` is still 0, so `socks5_server_quit` returns at
once, the join waits for the server thread to start the engine, and the stop returns "Stopped"
while the listener thread goes on to create workers. -/
theorem stop_misses_start :
    ∃ t, run Life.lifeStep Life.init
      [.start, .jni true, .jni true, .stop, .jni true, .server 1 true, .server 1 true,
        .server 1 true, .jni true, .jni true, .listener 1 true 0, .listener 1 true 0,
        .listener 1 true 2, .listener 1 true 0, .listener 1 true 0, .listener 1 true 0] = some t ∧
      t.stopReturned = true ∧ t.serverRunning = true ∧ t.listenerCount = 2 ∧
      ¬(t.listener 1).Finished ∧ t.alive (.worker 0) = some 1 :=
  ⟨_, rfl, rfl, rfl, rfl, by decide, rfl⟩

end FiveGProxy
