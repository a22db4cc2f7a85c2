import FiveGProxy.Lifecycle.Model

/-!
# What a stop tears down

`socks5_server_quit` joins, destroys and frees by a fixed order and looks at one flag only. It
meets nothing but what the current listener thread has created when that thread had got past the
test of `g_listener_count` before the table is cleared, and when no server thread creates another
listener thread meanwhile (`quit_teardown`).
-/

namespace FiveGProxy

open Steps

def ListenerPc.Ended (pc : ListenerPc) : Prop :=
  pc = .failClose ∨ pc = .returnedEarly ∨ pc = .returned

/-- The thread has found a bound listener and creates, or has created, the workers. -/
def ListenerPc.Passed : ListenerPc → Prop
  | .build _ | .loopTest | .loopReconcile | .poll | .finalClose | .returned => True
  | _ => False

instance : DecidablePred ListenerPc.Passed := fun pc => by
  cases pc <;> first | exact isTrue trivial | exact isFalse id

def ListenerPc.toBuild : ListenerPc → List Part
  | .build rest => rest
  | _ => []

/-- `socks5_server_quit` has cleared `server_running` and not joined the listener thread. -/
def JniPc.Joining (pc : JniPc) : Prop := pc = .quitClear ∨ pc = .quitWake ∨ pc = .quitJoin

instance (pc : JniPc) : Decidable pc.Joining := inferInstanceAs (Decidable (_ ∨ _))

/-- `socks5_server_quit` has joined the listener thread. -/
def JniPc.Tearing : JniPc → Prop
  | .poolShutdown | .joinPool _ | .tear _ | .closePipe => True
  | _ => False

instance : DecidablePred JniPc.Tearing := fun pc => by
  cases pc <;> first | exact isTrue trivial | exact isFalse id

/-- The creation is a `pthread_create` whose failure nothing makes up for. -/
def Part.IsThread : Part → Prop
  | worker _ | poolThread _ | udpWorker _ => True
  | _ => False

instance : DecidablePred Part.IsThread := fun p => by
  cases p <;> first | exact isTrue trivial | exact isFalse id

namespace Life

/-- The condition: the table is cleared when the listener thread has found it not empty and no
server thread is about to create another one; none does so before the end of the tear-down; the
threads can be created. -/
def StopAfterBind (s : Life) : LifeEvent → Prop
  | .jni _ => s.jni = .quitClear →
      s.server s.nServers ≠ .create ∧ (s.listener s.nListeners).Passed
  | .server k created => s.server k = .create → created = true ∧ ¬s.jni.Joining ∧ ¬s.jni.Tearing
  | .listener k ok _ => ∀ p ∈ (s.listener k).toBuild.head?, p.IsThread → ok = true
  | .start | .stop => True

instance (s : Life) : (e : LifeEvent) → Decidable (StopAfterBind s e)
  | .jni _ => inferInstanceAs (Decidable (_ → _))
  | .server _ _ => inferInstanceAs (Decidable (_ → _))
  | .listener _ _ _ => inferInstanceAs (Decidable (∀ p ∈ _, _))
  | .start | .stop => inferInstanceAs (Decidable True)

/-- The part may be torn down: it is there, or its zero handle says that it is not. -/
def Removable (s : Life) (p : Part) : Prop :=
  s.Owned p ∨ ∃ i, p = .dnsThread i ∧ s.dnsHandle i = false

/-- What holds of the flags and of the threads. -/
structure Threads (s : Life) : Prop where
  servers : ∀ k, s.server k ≠ .done →
    k = s.nServers ∧ s.gServerRunning = true ∧
      s.jni ≠ .startSet ∧ s.jni ≠ .startCreate ∧ s.jni ≠ .stopEnd
  flag : s.jni = .startCreate → s.gServerRunning = true
  older : ∀ k, k ≠ s.nListeners → (s.listener k).Ended
  joined : ∀ k, s.joined k = true → (s.listener k).Ended
  live : ¬(s.listener s.nListeners).Ended → s.serverRunning = true ∨ s.jni.Joining
  starting : s.server s.nServers = .store ∨ s.server s.nServers = .create →
    (s.listener s.nListeners).Ended ∨ s.jni.Joining
  creating : s.server s.nServers = .create → s.serverRunning = true ∨ s.jni = .quitClear
  unjoined : s.serverRunning = true ∨ s.jni = .quitStore ∨ s.jni = .quitClear →
    s.server s.nServers = .create ∨ s.joined s.nListeners = false
  restarted : s.jni.Joining ∨ s.jni.Tearing → s.serverRunning = true →
    s.server s.nServers = .create
  waking : s.jni = .quitWake ∨ s.jni = .quitJoin →
    (s.listener s.nListeners).Passed ∧ s.joined s.nListeners = false
  down : s.jni.Tearing → s.joined s.nListeners = true

/-- What is left to tear down at each point of `socks5_server_quit` is there. -/
def Tears (s : Life) : Prop :=
  match s.jni with
  | .poolShutdown => ∀ p, p.InRange handshakePoolSize → s.Removable p
  | .joinPool i =>
      ∀ p, p.InRange handshakePoolSize → (∀ j < i, p ≠ .poolThread j) → s.Removable p
  | .tear rest => rest.Nodup ∧ ∀ p ∈ rest, s.Removable p
  | _ => True

structure TearInv (s : Life) : Prop where
  threads : Threads s
  built : (s.listener s.nListeners).Passed → s.joined s.nListeners = false →
    ∀ p, p.InRange handshakePoolSize → p ∈ (s.listener s.nListeners).toBuild ∨ s.Removable p
  nthreads : s.nthreads ≤ handshakePoolSize
  tears : Tears s
  misuse : s.misuse = []

theorem TearInv.init : TearInv Life.init where
  threads := by
    constructor <;> simp [Life.init, ListenerPc.Ended, JniPc.Joining, JniPc.Tearing]
  built := fun _ hjoined => absurd hjoined (by rintro ⟨⟩)
  nthreads := Nat.zero_le _
  tears := trivial
  misuse := rfl

/-! ### The server thread -/

/-- Every server thread but the last is done, whatever the last one steps to. -/
theorem Threads.servers_update {s : Life} {pc : ServerPc} {k : ℕ} (h : Threads s)
    (hne : s.server s.nServers ≠ .done)
    (hk : Function.update s.server s.nServers pc k ≠ .done) :
    k = s.nServers ∧ s.gServerRunning = true ∧
      s.jni ≠ .startSet ∧ s.jni ≠ .startCreate ∧ s.jni ≠ .stopEnd := by
  by_cases hlast : k = s.nServers
  · subst hlast
    exact h.servers _ hne
  · rw [Function.update_of_ne hlast] at hk
    exact absurd (h.servers k hk).1 hlast

theorem Threads.serverLoad {s : Life} (h : Threads s) (hpc : s.server s.nServers = .load) :
    Threads (s.setServer s.nServers (if s.serverRunning then .fail else .store)) := by
  have hne : s.server s.nServers ≠ .done := by simp [hpc]
  have hnotCreate : s.server s.nServers ≠ .create := by simp [hpc]
  constructor <;> simp only [setServer, Function.update_self]
  case servers => exact fun k hk => h.servers_update hne hk
  case flag => exact h.flag
  case older => exact h.older
  case joined => exact h.joined
  case live => exact h.live
  case starting =>
    intro hcase
    have hoff : ¬s.serverRunning = true := by
      intro hon
      simp [hon] at hcase
    by_cases hended : (s.listener s.nListeners).Ended
    · exact Or.inl hended
    · exact Or.inr ((h.live hended).resolve_left hoff)
  case creating =>
    intro hcase
    split at hcase <;> cases hcase
  case unjoined => exact fun hcase => Or.inr ((h.unjoined hcase).resolve_left hnotCreate)
  case restarted => exact fun hstop hon => absurd (h.restarted hstop hon) hnotCreate
  case waking => exact h.waking
  case down => exact h.down

theorem Threads.serverStore {s : Life} (h : Threads s) (hpc : s.server s.nServers = .store) :
    Threads { s.setServer s.nServers .create with serverRunning := true } := by
  have hne : s.server s.nServers ≠ .done := by simp [hpc]
  constructor <;> simp only [setServer, Function.update_self]
  case servers => exact fun k hk => h.servers_update hne hk
  case flag => exact h.flag
  case older => exact h.older
  case joined => exact h.joined
  case live => exact fun _ => Or.inl trivial
  case starting => exact fun _ => h.starting (Or.inl hpc)
  case creating => exact fun _ => Or.inl trivial
  case unjoined => exact fun _ => Or.inl trivial
  case restarted => exact fun _ _ => trivial
  case waking => exact h.waking
  case down => exact h.down

/-- The new listener thread is the only one that runs: the one before has ended. -/
theorem Threads.serverCreate {s : Life} (h : Threads s) (hpc : s.server s.nServers = .create)
    (hnotJoining : ¬s.jni.Joining) (hnotTearing : ¬s.jni.Tearing) :
    Threads { s.setServer s.nServers .done with
      nListeners := s.nListeners + 1
      listener := Function.update s.listener (s.nListeners + 1) .pipe
      joined := Function.update s.joined (s.nListeners + 1) false } := by
  have hne : s.server s.nServers ≠ .done := by simp [hpc]
  have hlast : (s.listener s.nListeners).Ended := (h.starting (Or.inr hpc)).resolve_right hnotJoining
  have hnotClear : s.jni ≠ .quitClear := fun hclear => hnotJoining (Or.inl hclear)
  have hon : s.serverRunning = true := (h.creating hpc).resolve_right hnotClear
  have hnotWaking : ¬(s.jni = .quitWake ∨ s.jni = .quitJoin) := fun hw => hnotJoining (Or.inr hw)
  constructor <;> simp only [setServer, Function.update_self]
  case servers => exact fun k hk => h.servers_update hne hk
  case flag => exact h.flag
  case older =>
    intro k hk
    rw [Function.update_of_ne hk]
    by_cases hkn : k = s.nListeners
    · subst hkn
      exact hlast
    · exact h.older k hkn
  case joined =>
    intro k hk
    by_cases hkn : k = s.nListeners + 1
    · subst hkn
      simp at hk
    · rw [Function.update_of_ne hkn] at hk ⊢
      exact h.joined k hk
  case live => exact fun _ => Or.inl hon
  case starting => exact fun hcase => by simp at hcase
  case creating => exact fun hcase => by cases hcase
  case unjoined => exact fun _ => Or.inr trivial
  case restarted => exact fun hstop => absurd hstop (not_or.mpr ⟨hnotJoining, hnotTearing⟩)
  case waking => exact fun hw => absurd hw hnotWaking
  case down => exact fun htear => absurd htear hnotTearing

/-- A server thread that has found the engine running gives up and clears the flag. -/
theorem Threads.serverFail {s : Life} (h : Threads s) (hpc : s.server s.nServers = .fail) :
    Threads { s.setServer s.nServers .done with gServerRunning := false } := by
  have hne : s.server s.nServers ≠ .done := by simp [hpc]
  have hnotCreate : s.server s.nServers ≠ .create := by simp [hpc]
  obtain ⟨-, -, -, hnotStart, -⟩ := h.servers _ hne
  constructor <;> simp only [setServer, Function.update_self]
  case servers =>
    intro k hk
    obtain ⟨rfl, -⟩ := h.servers_update hne hk
    simp at hk
  case flag => exact fun hstart => absurd hstart hnotStart
  case older => exact h.older
  case joined => exact h.joined
  case live => exact h.live
  case starting => exact fun hcase => by simp at hcase
  case creating => exact fun hcase => by cases hcase
  case unjoined => exact fun hcase => Or.inr ((h.unjoined hcase).resolve_left hnotCreate)
  case restarted => exact fun hstop hon => absurd (h.restarted hstop hon) hnotCreate
  case waking => exact h.waking
  case down => exact h.down

theorem Threads.serverStep {s t : Life} {k : ℕ} {created : Bool} (h : Threads s)
    (hcond : StopAfterBind s (.server k created)) (hstep : s.serverStep k created = some t) :
    Threads t := by
  have hne : s.server k ≠ .done := by
    intro hdone
    rw [Life.serverStep, hdone] at hstep
    cases hstep
  obtain ⟨rfl, -⟩ := h.servers k hne
  unfold Life.serverStep at hstep
  cases hpc : s.server s.nServers with
  | load =>
      rw [hpc] at hstep
      cases hstep
      exact h.serverLoad hpc
  | store =>
      rw [hpc] at hstep
      cases hstep
      exact h.serverStore hpc
  | create =>
      rw [hpc] at hstep
      obtain ⟨rfl, hnotJoining, hnotTearing⟩ := hcond hpc
      cases hstep
      exact h.serverCreate hpc hnotJoining hnotTearing
  | fail =>
      rw [hpc] at hstep
      cases hstep
      exact h.serverFail hpc
  | done => exact absurd hpc hne

/-! ### The listener thread -/

theorem listenerStep_ended {s t : Life} {k count : ℕ} {ok : Bool}
    (h : s.listenerStep k ok count = some t) (hended : (s.listener k).Ended) :
    s.listener k = .failClose ∧
      t = { s.setListener k .returnedEarly with pipeOpen := false } := by
  rcases hended with hpc | hpc | hpc
  · rw [Life.listenerStep, hpc] at h
    cases h
    exact ⟨hpc, rfl⟩
  · exact absurd (Or.inr hpc) (listenerStep_not_finished h)
  · exact absurd (Or.inl hpc) (listenerStep_not_finished h)

theorem listenerStep_passed {s t : Life} {k count : ℕ} {ok : Bool}
    (h : s.listenerStep k ok count = some t) (hpassed : (s.listener k).Passed) :
    (t.listener k).Passed := by
  unfold Life.listenerStep at h
  split at h <;> rename_i hpc
  case h_7 =>
    cases h
    simp [setListener, ListenerPc.Passed]
  case h_8 p rest =>
    cases h
    simp [setListener, ListenerPc.Passed]
  case h_9 =>
    cases h
    cases s.serverRunning <;> simp [setListener, ListenerPc.Passed]
  case h_10 =>
    cases h
    simp [setListener, ListenerPc.Passed]
  case h_11 =>
    cases h
    cases ok && s.pipeWritten <;> simp [setListener, ListenerPc.Passed]
  case h_12 =>
    cases h
    simp [setListener, ListenerPc.Passed]
  case h_13 | h_14 => cases h
  all_goals
    rw [hpc] at hpassed
    exact hpassed.elim

theorem Threads.listenerStep {s t : Life} {k count : ℕ} {ok : Bool} (h : Threads s)
    (hstep : s.listenerStep k ok count = some t) : Threads t := by
  obtain ⟨hjni, hserver, hnServers, -, hn, hjoinedEq, hflag, -, hother, hrunning⟩ :=
    listenerStep_frame hstep
  have hended : ∀ j, (s.listener j).Ended → (t.listener j).Ended := by
    intro j hj
    by_cases hjk : j = k
    · subst hjk
      obtain ⟨-, rfl⟩ := listenerStep_ended hstep hj
      exact Or.inr (Or.inl (Function.update_self ..))
    · rw [hother j hjk]
      exact hj
  have hpassed : ∀ j, (s.listener j).Passed → (t.listener j).Passed := by
    intro j hj
    by_cases hjk : j = k
    · subst hjk
      exact listenerStep_passed hstep hj
    · rw [hother j hjk]
      exact hj
  rcases hrunning with hrun | ⟨hfail, hrun, hclose⟩
  · constructor <;> simp only [hjni, hserver, hnServers, hn, hjoinedEq, hflag, hrun]
    case servers => exact h.servers
    case flag => exact h.flag
    case older => exact fun k hk => hended k (h.older k hk)
    case joined => exact fun k hk => hended k (h.joined k hk)
    case live => exact fun hlive => h.live fun hnow => hlive (hended _ hnow)
    case starting => exact fun hcase => (h.starting hcase).imp_left (hended _)
    case creating => exact h.creating
    case unjoined => exact h.unjoined
    case restarted => exact h.restarted
    case waking => exact fun hcase => (h.waking hcase).imp_left (hpassed _)
    case down => exact h.down
  · -- the start has found nothing to bind
    have hnotEnded : ¬(s.listener k).Ended := by
      rw [hfail]
      simp [ListenerPc.Ended]
    have hnotPassed : ¬(s.listener k).Passed := by
      rw [hfail]
      exact id
    have hk : k = s.nListeners := by
      by_contra hne
      exact hnotEnded (h.older k hne)
    subst hk
    have hnow : (t.listener s.nListeners).Ended := Or.inl hclose
    have hnotWaking : ¬(s.jni = .quitWake ∨ s.jni = .quitJoin) :=
      fun hcase => hnotPassed (h.waking hcase).1
    constructor <;> simp only [hjni, hserver, hnServers, hn, hjoinedEq, hflag, hrun]
    case servers => exact h.servers
    case flag => exact h.flag
    case older => exact fun k hk => hended k (h.older k hk)
    case joined => exact fun k hk => hended k (h.joined k hk)
    case live => exact fun hlive => absurd hnow hlive
    case starting => exact fun _ => Or.inl hnow
    case creating =>
      intro hcase
      have hjoining : s.jni.Joining := (h.starting (Or.inr hcase)).resolve_left hnotEnded
      exact Or.inr (hjoining.resolve_right hnotWaking)
    case unjoined =>
      exact fun hcase => h.unjoined (Or.inr (hcase.resolve_left Bool.false_ne_true))
    case restarted => exact fun _ hon => by cases hon
    case waking => exact fun hcase => absurd hcase hnotWaking
    case down => exact h.down

theorem Threads.moveOn {s t : Life} (h : Threads s) (pc : JniPc) (hold : ¬s.jni.Joining)
    (hnew : ¬pc.Joining) (hjni : t.jni = pc) (hserver : t.server = s.server) (hnServers : t.nServers = s.nServers)
    (hlistener : t.listener = s.listener) (hn : t.nListeners = s.nListeners)
    (hjoined : t.joined = s.joined) (hrun : t.serverRunning = s.serverRunning)
    (hservers : ∀ k, s.server k ≠ .done → t.gServerRunning = true ∧
      pc ≠ .startSet ∧ pc ≠ .startCreate ∧ pc ≠ .stopEnd)
    (hflag : pc = .startCreate → t.gServerRunning = true)
    (hstore : pc = .quitStore → s.serverRunning = true)
    (htear : pc.Tearing → s.jni.Tearing) : Threads t := by
  have hclear : ∀ {pc : JniPc}, ¬pc.Joining → pc ≠ .quitClear := fun hpc heq => hpc (Or.inl heq)
  constructor <;> simp only [hjni, hserver, hnServers, hlistener, hn, hjoined, hrun]
  case servers => exact fun k hk => ⟨(h.servers k hk).1, hservers k hk⟩
  case flag => exact hflag
  case older => exact h.older
  case joined => exact h.joined
  case live => exact fun hlive => Or.inl ((h.live hlive).resolve_right hold)
  case starting => exact fun hcase => Or.inl ((h.starting hcase).resolve_right hold)
  case creating => exact fun hcase => Or.inl ((h.creating hcase).resolve_right (hclear hold))
  case unjoined =>
    rintro (hon | hpc | hpc)
    · exact h.unjoined (Or.inl hon)
    · exact h.unjoined (Or.inl (hstore hpc))
    · exact absurd hpc (hclear hnew)
  case restarted => exact fun hcase => h.restarted (Or.inr (htear (hcase.resolve_left hnew)))
  case waking => exact fun hcase => absurd (Or.inr hcase) hnew
  case down => exact fun hcase => h.down (htear hcase)

theorem Threads.tearOn {s t : Life} (h : Threads s) (hold : s.jni.Tearing)
    (hnew : t.jni.Tearing ∨ t.jni = .joinServer) (hserver : t.server = s.server)
    (hnServers : t.nServers = s.nServers) (hflag : t.gServerRunning = s.gServerRunning)
    (hlistener : t.listener = s.listener) (hn : t.nListeners = s.nListeners)
    (hjoined : t.joined = s.joined) (hrun : t.serverRunning = s.serverRunning) : Threads t := by
  have hnotJoining : ¬s.jni.Joining := by
    rintro (hpc | hpc | hpc) <;> rw [hpc] at hold <;> exact hold
  have hafter : t.jni ≠ .startSet ∧ t.jni ≠ .startCreate ∧ t.jni ≠ .stopEnd ∧ t.jni ≠ .quitStore ∧
      ¬t.jni.Joining := by
    cases hpc : t.jni <;> rw [hpc] at hnew <;>
      simp_all [JniPc.Tearing, JniPc.Joining]
  obtain ⟨hstart, hcreate, hend, hstore, hjoining⟩ := hafter
  refine h.moveOn t.jni hnotJoining hjoining rfl hserver hnServers hlistener hn hjoined hrun ?_
    (fun hpc => absurd hpc hcreate) (fun hpc => absurd hpc hstore) fun _ => hold
  intro k hk
  obtain ⟨-, hset, -⟩ := h.servers k hk
  exact ⟨hflag.trans hset, hstart, hcreate, hend⟩

theorem Threads.jniStart {s t : Life} {created : Bool} (h : Threads s)
    (hpc : s.jni = .startSet ∨ s.jni = .startCreate) (hstep : s.jniStep created = some t) :
    Threads t := by
  have hold : ¬s.jni.Joining := by
    rcases hpc with hpc | hpc <;> rw [hpc] <;> decide
  have hdone : ∀ k, s.server k = .done := by
    intro k
    by_contra hk
    obtain ⟨-, -, hset, hcreate, -⟩ := h.servers k hk
    exact hpc.elim hset hcreate
  unfold Life.jniStep at hstep
  rcases hpc with hpc | hpc <;> rw [hpc] at hstep
  · cases hstep
    exact h.moveOn .startCreate hold (by decide) rfl rfl rfl rfl rfl rfl rfl
      (fun k hk => absurd (hdone k) hk) (fun _ => rfl) (by rintro ⟨⟩) (by rintro ⟨⟩)
  · cases created with
    | false =>
        cases hstep
        exact h.moveOn .idle hold (by decide) rfl rfl rfl rfl rfl rfl rfl
          (fun k hk => absurd (hdone k) hk) (by rintro ⟨⟩) (by rintro ⟨⟩) (by rintro ⟨⟩)
    | true =>
        cases hstep
        constructor <;> simp only [Function.update_self]
        case servers =>
          intro k hk
          have hlast : k = s.nServers + 1 := by
            by_contra hne
            rw [Function.update_of_ne hne] at hk
            exact hk (hdone k)
          exact ⟨hlast, h.flag hpc, by decide, by decide, by decide⟩
        case flag => rintro ⟨⟩
        case older => exact h.older
        case joined => exact h.joined
        case live => exact fun hlive => Or.inl ((h.live hlive).resolve_right hold)
        case starting => rintro (⟨⟨⟩⟩ | ⟨⟨⟩⟩)
        case creating => rintro ⟨⟩
        case unjoined =>
          rintro (hon | ⟨⟨⟩⟩ | ⟨⟨⟩⟩)
          refine Or.inr ((h.unjoined (Or.inl hon)).resolve_left ?_)
          simp [hdone]
        case restarted => exact fun hcase => absurd hcase (by decide)
        case waking => exact fun hcase => absurd hcase (by decide)
        case down => rintro ⟨⟩

/-- `socks5_server_quit` before it waits for the listener thread. -/
theorem Threads.jniQuit {s t : Life} {created : Bool} (h : Threads s)
    (hcond : StopAfterBind s (.jni created)) (hstep : s.jniStep created = some t)
    (hpc : s.jni = .quitStore ∨ s.jni = .quitClear ∨ s.jni = .quitWake) : Threads t := by
  unfold Life.jniStep at hstep
  rcases hpc with hpc | hpc | hpc
  · have hcleared := h.unjoined (Or.inr (Or.inl hpc))
    rw [hpc] at hstep
    cases hstep
    constructor <;> simp only
    case servers =>
      intro k hk
      obtain ⟨hlast, hset, -⟩ := h.servers k hk
      exact ⟨hlast, hset, by decide, by decide, by decide⟩
    case flag => rintro ⟨⟩
    case older => exact h.older
    case joined => exact h.joined
    case live => exact fun _ => Or.inr (by decide)
    case starting => exact fun _ => Or.inr (by decide)
    case creating => exact fun _ => Or.inr trivial
    case unjoined => exact fun _ => hcleared
    case restarted => exact fun _ hon => by cases hon
    case waking => exact fun hcase => absurd hcase (by decide)
    case down => rintro ⟨⟩
  · -- the listener thread has passed its test, and no server thread creates another one
    obtain ⟨hnotCreate, hpassed⟩ := hcond hpc
    have hunjoined := (h.unjoined (Or.inr (Or.inr hpc))).resolve_left hnotCreate
    have hstopping : s.jni.Joining ∨ s.jni.Tearing := Or.inl (Or.inl hpc)
    rw [hpc] at hstep
    cases hstep
    constructor <;> simp only
    case servers =>
      intro k hk
      obtain ⟨hlast, hset, -⟩ := h.servers k hk
      exact ⟨hlast, hset, by decide, by decide, by decide⟩
    case flag => rintro ⟨⟩
    case older => exact h.older
    case joined => exact h.joined
    case live => exact fun _ => Or.inr (by decide)
    case starting => exact fun _ => Or.inr (by decide)
    case creating => exact fun hcase => absurd hcase hnotCreate
    case unjoined => exact fun _ => Or.inr hunjoined
    case restarted => exact fun _ => h.restarted hstopping
    case waking => exact fun _ => ⟨hpassed, hunjoined⟩
    case down => rintro ⟨⟩
  · have hwaking := h.waking (Or.inl hpc)
    have hstopping : s.jni.Joining ∨ s.jni.Tearing := Or.inl (Or.inr (Or.inl hpc))
    have hnotClear : s.jni ≠ .quitClear := by simp [hpc]
    rw [hpc] at hstep
    cases hstep
    constructor <;> simp only
    case servers =>
      intro k hk
      obtain ⟨hlast, hset, -⟩ := h.servers k hk
      exact ⟨hlast, hset, by decide, by decide, by decide⟩
    case flag => rintro ⟨⟩
    case older => exact h.older
    case joined => exact h.joined
    case live => exact fun _ => Or.inr (by decide)
    case starting => exact fun _ => Or.inr (by decide)
    case creating => exact fun hcase => Or.inl ((h.creating hcase).resolve_right hnotClear)
    case unjoined => exact fun _ => Or.inr hwaking.2
    case restarted => exact fun _ => h.restarted hstopping
    case waking => exact fun _ => hwaking
    case down => rintro ⟨⟩

theorem Threads.jniJoin {s t : Life} {created : Bool} (h : Threads s) (hpc : s.jni = .quitJoin)
    (hstep : s.jniStep created = some t) : Threads t := by
  obtain ⟨-, hnotJoined⟩ := h.waking (Or.inr hpc)
  have hrestarted := h.restarted (Or.inl (Or.inr (Or.inr hpc)))
  have hnotClear : s.jni ≠ .quitClear := by simp [hpc]
  unfold Life.jniStep at hstep
  rw [hpc] at hstep
  simp only [hnotJoined, Bool.false_eq_true, if_false] at hstep
  split at hstep
  case isTrue hfin =>
    have hended : (s.listener s.nListeners).Ended := Or.inr hfin.symm
    cases hstep
    constructor <;> simp only [Function.update_self]
    case servers =>
      intro k hk
      obtain ⟨hlast, hset, -⟩ := h.servers k hk
      exact ⟨hlast, hset, by decide, by decide, by decide⟩
    case flag => rintro ⟨⟩
    case older => exact h.older
    case joined =>
      intro k hk
      by_cases hkn : k = s.nListeners
      · subst hkn
        exact hended
      · rw [Function.update_of_ne hkn] at hk
        exact h.joined k hk
    case live => exact fun hlive => absurd hended hlive
    case starting => exact fun _ => Or.inl hended
    case creating => exact fun hcase => Or.inl ((h.creating hcase).resolve_right hnotClear)
    case unjoined =>
      rintro (hon | ⟨⟨⟩⟩ | ⟨⟨⟩⟩)
      exact Or.inl (hrestarted hon)
    case restarted => exact fun _ => hrestarted
    case waking => exact fun hcase => absurd hcase (by decide)
    case down => exact fun _ => trivial
  case isFalse => cases hstep

theorem Threads.jniStep {s t : Life} {created : Bool} (h : Threads s)
    (hcond : StopAfterBind s (.jni created)) (hstep : s.jniStep created = some t) :
    Threads t := by
  have hwhole := hstep
  unfold Life.jniStep at hstep
  cases hpc : s.jni with
  | idle =>
      rw [hpc] at hstep
      cases hstep
  | startSet => exact h.jniStart (Or.inl hpc) hwhole
  | startCreate => exact h.jniStart (Or.inr hpc) hwhole
  | quitStore => exact h.jniQuit hcond hwhole (Or.inl hpc)
  | quitClear => exact h.jniQuit hcond hwhole (Or.inr (Or.inl hpc))
  | quitWake => exact h.jniQuit hcond hwhole (Or.inr (Or.inr hpc))
  | quitJoin => exact h.jniJoin hpc hwhole
  | poolShutdown =>
      have hold : s.jni.Tearing := by rw [hpc]; trivial
      rw [hpc] at hstep
      cases hstep
      exact h.tearOn hold (Or.inl trivial) rfl rfl rfl rfl rfl rfl rfl
  | joinPool i =>
      have hold : s.jni.Tearing := by rw [hpc]; trivial
      rw [hpc] at hstep
      simp only at hstep
      split at hstep
      case isTrue =>
        cases hstep
        rw [release_eq]
        exact h.tearOn hold (Or.inl trivial) rfl rfl rfl rfl rfl rfl rfl
      case isFalse =>
        cases hstep
        exact h.tearOn hold (Or.inl trivial) rfl rfl rfl rfl rfl rfl rfl
  | tear rest =>
      have hold : s.jni.Tearing := by rw [hpc]; trivial
      rw [hpc] at hstep
      cases rest with
      | nil =>
          cases hstep
          exact h.tearOn hold (Or.inl trivial) rfl rfl rfl rfl rfl rfl rfl
      | cons p rest =>
          cases hstep
          rw [release_eq]
          exact h.tearOn hold (Or.inl trivial) rfl rfl rfl rfl rfl rfl rfl
  | closePipe =>
      have hold : s.jni.Tearing := by rw [hpc]; trivial
      rw [hpc] at hstep
      cases hstep
      exact h.tearOn hold (Or.inr rfl) rfl rfl rfl rfl rfl rfl rfl
  | quitLoad =>
      have hold : ¬s.jni.Joining := by rw [hpc]; decide
      rw [hpc] at hstep
      cases hstep
      by_cases hon : s.serverRunning = true
      · refine h.moveOn .quitStore hold (by decide) (if_pos hon) rfl rfl rfl rfl rfl rfl ?_
          (by rintro ⟨⟩) (fun _ => hon) (by rintro ⟨⟩)
        exact fun k hk => ⟨(h.servers k hk).2.1, by decide, by decide, by decide⟩
      · refine h.moveOn .joinServer hold (by decide) (if_neg hon) rfl rfl rfl rfl rfl rfl ?_
          (by rintro ⟨⟩) (by rintro ⟨⟩) (by rintro ⟨⟩)
        exact fun k hk => ⟨(h.servers k hk).2.1, by decide, by decide, by decide⟩
  | stopEnd =>
      have hold : ¬s.jni.Joining := by rw [hpc]; decide
      rw [hpc] at hstep
      cases hstep
      refine h.moveOn .idle hold (by decide) rfl rfl rfl rfl rfl rfl rfl ?_ (by rintro ⟨⟩)
        (by rintro ⟨⟩) (by rintro ⟨⟩)
      exact fun k hk => absurd hpc (h.servers k hk).2.2.2.2
  | joinServer =>
      have hold : ¬s.jni.Joining := by rw [hpc]; decide
      rw [hpc] at hstep
      simp only at hstep
      split at hstep
      case isTrue hdone =>
        cases hstep
        refine h.moveOn .stopEnd hold (by decide) rfl rfl rfl rfl rfl rfl rfl ?_ (by rintro ⟨⟩)
          (by rintro ⟨⟩) (by rintro ⟨⟩)
        intro k hk
        obtain ⟨rfl, -⟩ := h.servers k hk
        exact absurd hdone hk
      case isFalse => cases hstep

/-! ### The parts -/

theorem Removable.congr {s t : Life} {p : Part} (h : s.Removable p) (hn : t.nListeners = s.nListeners)
    (halive : t.alive p = s.alive p) (hhandle : t.dnsHandle = s.dnsHandle) : t.Removable p := by
  unfold Removable Owned at h ⊢
  rw [halive, hhandle, hn]
  exact h

/-- Tearing down a part that is there is no misuse, and leaves the other parts as they are. -/
theorem Removable.release {s : Life} {p : Part} (h : s.Removable p) :
    (s.release p).misuse = s.misuse ∧
      ∀ q, q ≠ p → s.Removable q → (s.release p).Removable q := by
  have htear : s.Owned p → (s.tearDown p).misuse = s.misuse := fun howned => if_pos howned
  cases p with
  | dnsThread i =>
      unfold Life.release
      by_cases hset : s.dnsHandle i = true
      · simp only [if_pos hset]
        have howned : s.Owned (.dnsThread i) := by
          refine h.resolve_right ?_
          rintro ⟨j, heq, hzero⟩
          cases heq
          exact absurd (hset.symm.trans hzero) nofun
        refine ⟨htear howned, fun q hq hrem => ?_⟩
        rcases hrem with hown | ⟨j, rfl, hzero⟩
        · exact Or.inl ((Function.update_of_ne hq _ _).trans hown)
        · have hji : j ≠ i := fun heq => hq (congrArg Part.dnsThread heq)
          exact Or.inr ⟨j, rfl, (Function.update_of_ne hji _ _).trans hzero⟩
      · simp only [if_neg hset]
        exact ⟨trivial, fun _ _ hrem => hrem⟩
  | _ =>
      refine ⟨htear (h.resolve_right nofun), fun q hq hrem => ?_⟩
      exact hrem.congr rfl (Function.update_of_ne hq _ _) rfl

theorem Tears.of_not_tearing {s : Life} (h : ¬s.jni.Tearing) : Tears s := by
  unfold Tears
  cases hpc : s.jni with
  | poolShutdown | joinPool i | tear rest =>
      rw [hpc] at h
      exact absurd trivial h
  | _ => trivial

theorem Tears.congr {s t : Life} (h : Tears s) (hjni : t.jni = s.jni)
    (hn : t.nListeners = s.nListeners) (halive : t.alive = s.alive)
    (hhandle : t.dnsHandle = s.dnsHandle) : Tears t := by
  have hrem : ∀ p, s.Removable p → t.Removable p :=
    fun p hp => hp.congr hn (congrFun halive p) hhandle
  unfold Tears at h ⊢
  rw [hjni]
  cases hpc : s.jni with
  | poolShutdown =>
      rw [hpc] at h
      exact fun p hp => hrem p (h p hp)
  | joinPool i =>
      rw [hpc] at h
      exact fun p hp hbefore => hrem p (h p hp hbefore)
  | tear rest =>
      rw [hpc] at h
      exact ⟨h.1, fun p hp => hrem p (h.2 p hp)⟩
  | _ => trivial

theorem TearInv.serverStep {s t : Life} {k : ℕ} {created : Bool} (h : TearInv s)
    (hcond : StopAfterBind s (.server k created)) (hstep : s.serverStep k created = some t) :
    TearInv t := by
  have hthreads := h.threads.serverStep hcond hstep
  obtain ⟨hjni, halive, -, hmisuse, hnthreads, hhandle, -⟩ := serverStep_frame hstep
  by_cases hcreate : s.server k = .create
  · obtain ⟨rfl, -, hnotTearing⟩ := hcond hcreate
    refine ⟨hthreads, ?_, hnthreads ▸ h.nthreads, Tears.of_not_tearing (hjni ▸ hnotTearing),
      hmisuse.trans h.misuse⟩
    rw [Life.serverStep, hcreate] at hstep
    cases hstep
    intro hpassed
    simp [setServer, ListenerPc.Passed] at hpassed
  · have hsame : t.listener = s.listener ∧ t.nListeners = s.nListeners ∧ t.joined = s.joined := by
      unfold Life.serverStep at hstep
      split at hstep
      case h_3 hpc => exact absurd hpc hcreate
      case h_5 => cases hstep
      all_goals
        cases hstep
        exact ⟨rfl, rfl, rfl⟩
    obtain ⟨hlistener, hn, hjoined⟩ := hsame
    refine ⟨hthreads, ?_, hnthreads ▸ h.nthreads, h.tears.congr hjni hn halive hhandle,
      hmisuse.trans h.misuse⟩
    rw [hlistener, hn, hjoined]
    exact fun hpassed hnot p hp => (h.built hpassed hnot p hp).imp_right
      fun hrem => hrem.congr hn (congrFun halive p) hhandle

theorem Removable.create {s : Life} {p q : Part} {created : Bool} (hok : p.IsThread → created = true)
    (h : q = p ∨ s.Removable q) : (s.create s.nListeners p created).Removable q := by
  by_cases hqp : q = p
  · subst hqp
    unfold Removable Owned
    rw [create_nListeners]
    cases q with
    | worker i | poolThread i | udpWorker i =>
        left
        rw [hok trivial]
        exact Function.update_self ..
    | dnsThread i =>
        cases created with
        | true => exact Or.inl (Function.update_self ..)
        | false => exact Or.inr ⟨i, rfl, Function.update_self ..⟩
    | _ =>
        left
        simp [Life.create]
  · rcases h.resolve_left hqp with hown | ⟨i, rfl, hzero⟩
    · left
      unfold Owned
      rw [create_nListeners, create_alive_of_ne hqp]
      exact hown
    · right
      exact ⟨i, rfl, (create_dnsHandle_of_ne (Ne.symm hqp)).trans hzero⟩

theorem TearInv.built_listenerStep {s t : Life} {count : ℕ} {ok : Bool} (h : TearInv s)
    (hcond : StopAfterBind s (.listener s.nListeners ok count))
    (hstep : s.listenerStep s.nListeners ok count = some t)
    (hpassed : (t.listener s.nListeners).Passed) (hjoined : s.joined s.nListeners = false)
    {p : Part} (hp : p.InRange handshakePoolSize) :
    p ∈ (t.listener s.nListeners).toBuild ∨ t.Removable p := by
  have hbuilt := fun hnow => h.built hnow hjoined p hp
  unfold Life.listenerStep at hstep
  cases hpc : s.listener s.nListeners with
  | check =>
      rw [hpc] at hstep
      cases hstep
      by_cases hzero : s.listenerCount = 0
      · simp [setListener, hzero, ListenerPc.Passed] at hpassed
      · left
        simpa [setListener, hzero, ListenerPc.toBuild] using Part.mem_startOrder.mpr hp
  | build rest =>
      rw [hpc] at hstep hbuilt
      cases rest with
      | nil =>
          cases hstep
          exact Or.inr ((hbuilt trivial).resolve_left List.not_mem_nil)
      | cons q rest =>
          have hok : q.IsThread → ok = true := by
            intro hq
            exact hcond q (by rw [hpc]; rfl) hq
          cases hstep
          rcases hbuilt trivial with hmem | hrem
          · rcases List.mem_cons.mp hmem with rfl | hrest
            · exact Or.inr (Removable.create hok (Or.inl rfl))
            · left
              simpa [setListener, ListenerPc.toBuild] using hrest
          · exact Or.inr (Removable.create hok (Or.inr hrem))
  | loopTest =>
      rw [hpc] at hstep hbuilt
      cases hstep
      exact Or.inr ((hbuilt trivial).resolve_left List.not_mem_nil)
  | loopReconcile =>
      rw [hpc, reconcileListeners_eq] at hstep
      rw [hpc] at hbuilt
      cases hstep
      exact Or.inr ((hbuilt trivial).resolve_left List.not_mem_nil)
  | poll | finalClose =>
      rw [hpc] at hstep hbuilt
      cases hstep
      exact Or.inr ((hbuilt trivial).resolve_left List.not_mem_nil)
  | returned | returnedEarly =>
      rw [hpc] at hstep
      cases hstep
  | pipe =>
      rw [hpc] at hstep
      cases ok <;> cases hstep <;> simp [setListener, ListenerPc.Passed] at hpassed
  | firstReconcile =>
      rw [hpc, reconcileListeners_eq] at hstep
      cases hstep
      simp [setListener, ListenerPc.Passed] at hpassed
  | zeroCount | failStore | failClose =>
      rw [hpc] at hstep
      cases hstep
      simp [setListener, ListenerPc.Passed] at hpassed

theorem listenerStep_nthreads {s t : Life} {k count : ℕ} {ok : Bool}
    (h : s.listenerStep k ok count = some t) (hs : s.nthreads ≤ handshakePoolSize) :
    t.nthreads ≤ handshakePoolSize := by
  unfold Life.listenerStep at h
  split at h
  case h_1 => split at h <;> cases h <;> exact hs
  case h_3 | h_10 =>
      rw [reconcileListeners_eq] at h
      cases h
      exact hs
  case h_8 p rest _ =>
      cases h
      show (s.create k p ok).nthreads ≤ handshakePoolSize
      rw [create_nthreads]
      split
      · exact Nat.le_refl _
      · exact hs
  case h_13 | h_14 => cases h
  all_goals
    cases h
    exact hs

theorem TearInv.listenerStep {s t : Life} {k count : ℕ} {ok : Bool} (h : TearInv s)
    (hcond : StopAfterBind s (.listener k ok count))
    (hstep : s.listenerStep k ok count = some t) : TearInv t := by
  obtain ⟨hjni, -, -, hmisuse, hn, hjoined, -⟩ := listenerStep_frame hstep
  refine ⟨h.threads.listenerStep hstep, ?_, listenerStep_nthreads hstep h.nthreads, ?_,
    hmisuse.trans h.misuse⟩
  · rw [hn, hjoined]
    intro hpassed hnot p hp
    by_cases hk : k = s.nListeners
    · subst hk
      exact h.built_listenerStep hcond hstep hpassed hnot hp
    · obtain ⟨-, rfl⟩ := listenerStep_ended hstep (h.threads.older k hk)
      have hsame : Function.update s.listener k .returnedEarly s.nListeners =
          s.listener s.nListeners := Function.update_of_ne (Ne.symm hk) _ _
      simp only [setListener, hsame] at hpassed ⊢
      exact h.built hpassed hnot p hp
  · by_cases htearing : s.jni.Tearing
    · have hended : (s.listener k).Ended := by
        by_cases hk : k = s.nListeners
        · exact h.threads.joined k (hk ▸ h.threads.down htearing)
        · exact h.threads.older k hk
      obtain ⟨-, rfl⟩ := listenerStep_ended hstep hended
      exact h.tears.congr rfl rfl rfl rfl
    · exact Tears.of_not_tearing (hjni ▸ htearing)

/-! ### `socks5_server_quit` -/

theorem Tears.jniStep {s t : Life} {created : Bool} (h : TearInv s)
    (hcond : StopAfterBind s (.jni created)) (hstep : s.jniStep created = some t) :
    Tears t ∧ t.misuse = [] := by
  have hmisuse := h.misuse
  have htears := h.tears
  unfold Tears at htears
  unfold Life.jniStep at hstep
  cases hpc : s.jni with
  | quitJoin =>
      rw [hpc] at hstep
      obtain ⟨hpassed, hnotJoined⟩ := h.threads.waking (Or.inr hpc)
      simp only [hnotJoined, Bool.false_eq_true, if_false] at hstep
      split at hstep
      case isTrue hfin =>
        cases hstep
        refine ⟨fun p hp => ?_, hmisuse⟩
        rcases hfin with hret | hret
        · refine (h.built hpassed hnotJoined p hp).resolve_left ?_
          rw [hret]
          exact List.not_mem_nil
        · rw [hret] at hpassed
          exact hpassed.elim
      case isFalse => cases hstep
  | poolShutdown =>
      rw [hpc] at hstep htears
      have howned : s.Owned .poolLock := (htears .poolLock trivial).resolve_right nofun
      simp only [if_pos howned] at hstep
      cases hstep
      exact ⟨fun p hp _ => htears p hp, hmisuse⟩
  | joinPool i =>
      rw [hpc] at hstep htears
      simp only at hstep
      split at hstep
      case isTrue hlt =>
        have hrem : s.Removable (.poolThread i) := by
          refine htears (.poolThread i) (Nat.lt_of_lt_of_le hlt h.nthreads) fun j hj heq => ?_
          exact Nat.ne_of_gt hj (Part.poolThread.inj heq)
        obtain ⟨hsame, hothers⟩ := hrem.release
        cases hstep
        refine ⟨fun p hp hbefore => ?_, hsame.trans hmisuse⟩
        refine hothers p (hbefore i (Nat.lt_succ_self i)) (htears p hp fun j hj => ?_)
        exact hbefore j (Nat.lt_succ_of_lt hj)
      case isFalse =>
        cases hstep
        refine ⟨⟨Part.nodup_quitOrder, fun p hp => ?_⟩, hmisuse⟩
        have hrange : p.InRange 0 := Part.mem_quitOrder.mp hp
        refine htears p (hrange.mono (Nat.zero_le _)) fun j _ heq => ?_
        subst heq
        exact Nat.not_lt_zero j hrange
  | tear rest =>
      rw [hpc] at hstep htears
      cases rest with
      | nil =>
          cases hstep
          exact ⟨trivial, hmisuse⟩
      | cons p rest =>
          obtain ⟨hnodup, hrest⟩ := htears
          obtain ⟨hp, hnodup⟩ := List.nodup_cons.mp hnodup
          obtain ⟨hsame, hothers⟩ := (hrest p List.mem_cons_self).release
          cases hstep
          refine ⟨⟨hnodup, fun q hq => ?_⟩, hsame.trans hmisuse⟩
          exact hothers q (fun heq => hp (heq ▸ hq)) (hrest q (List.mem_cons_of_mem p hq))
  | idle =>
      rw [hpc] at hstep
      cases hstep
  | startCreate =>
      rw [hpc] at hstep
      cases created <;> cases hstep <;> exact ⟨trivial, hmisuse⟩
  | quitLoad =>
      rw [hpc] at hstep
      cases hstep
      refine ⟨Tears.of_not_tearing ?_, hmisuse⟩
      cases s.serverRunning <;> exact id
  | joinServer =>
      rw [hpc] at hstep
      simp only at hstep
      split at hstep
      case isTrue =>
        cases hstep
        exact ⟨trivial, hmisuse⟩
      case isFalse => cases hstep
  | startSet | quitStore | quitClear | quitWake | closePipe | stopEnd =>
      rw [hpc] at hstep
      cases hstep
      exact ⟨trivial, hmisuse⟩

/-- A step of a call leaves the listeners alone, and the parts unless it tears them down. -/
theorem jniStep_parts {s t : Life} {created : Bool} (h : s.jniStep created = some t) :
    t.listener = s.listener ∧ t.nListeners = s.nListeners ∧ t.nthreads = s.nthreads ∧
      (t.joined s.nListeners = false → s.joined s.nListeners = false) ∧
      (¬s.jni.Tearing → t.alive = s.alive ∧ t.dnsHandle = s.dnsHandle) := by
  unfold Life.jniStep at h
  cases hpc : s.jni with
  | idle =>
      rw [hpc] at h
      cases h
  | startCreate =>
      rw [hpc] at h
      cases created <;> cases h <;> exact ⟨rfl, rfl, rfl, id, fun _ => ⟨rfl, rfl⟩⟩
  | quitJoin =>
      rw [hpc] at h
      simp only at h
      split at h
      case isTrue =>
        cases h
        exact ⟨rfl, rfl, rfl, id, fun _ => ⟨rfl, rfl⟩⟩
      case isFalse =>
        split at h
        case isTrue =>
          cases h
          refine ⟨rfl, rfl, rfl, fun hjoined => ?_, fun _ => ⟨rfl, rfl⟩⟩
          simp at hjoined
        case isFalse => cases h
  | joinPool i =>
      rw [hpc] at h
      simp only at h
      split at h
      case isTrue =>
        cases h
        rw [release_eq]
        exact ⟨rfl, rfl, rfl, id, fun hnot => absurd trivial hnot⟩
      case isFalse =>
        cases h
        exact ⟨rfl, rfl, rfl, id, fun _ => ⟨rfl, rfl⟩⟩
  | tear rest =>
      rw [hpc] at h
      cases rest with
      | nil =>
          cases h
          exact ⟨rfl, rfl, rfl, id, fun _ => ⟨rfl, rfl⟩⟩
      | cons p rest =>
          cases h
          rw [release_eq]
          exact ⟨rfl, rfl, rfl, id, fun hnot => absurd trivial hnot⟩
  | joinServer =>
      rw [hpc] at h
      simp only at h
      split at h
      case isTrue =>
        cases h
        exact ⟨rfl, rfl, rfl, id, fun _ => ⟨rfl, rfl⟩⟩
      case isFalse => cases h
  | startSet | quitLoad | quitStore | quitClear | quitWake | poolShutdown | closePipe | stopEnd =>
      rw [hpc] at h
      cases h
      exact ⟨rfl, rfl, rfl, id, fun _ => ⟨rfl, rfl⟩⟩

theorem TearInv.jniStep {s t : Life} {created : Bool} (h : TearInv s)
    (hcond : StopAfterBind s (.jni created)) (hstep : s.jniStep created = some t) : TearInv t := by
  obtain ⟨htears, hmisuse⟩ := Tears.jniStep h hcond hstep
  obtain ⟨hlistener, hn, hnthreads, hjoined, hparts⟩ := jniStep_parts hstep
  refine ⟨h.threads.jniStep hcond hstep, ?_, hnthreads ▸ h.nthreads, htears, hmisuse⟩
  rw [hlistener, hn]
  intro hpassed hnot p hp
  have hnotJoined := hjoined hnot
  have hnotTearing : ¬s.jni.Tearing := by
    intro htearing
    exact absurd (hnotJoined.symm.trans (h.threads.down htearing)) nofun
  obtain ⟨halive, hhandle⟩ := hparts hnotTearing
  exact (h.built hpassed hnotJoined p hp).imp_right
    fun hrem => hrem.congr hn (congrFun halive p) hhandle

/-- A call of `native_start_socks5_server` or `native_stop_socks5_server` looks at its flag. -/
theorem TearInv.call {s t : Life} (h : TearInv s) (hidle : s.jni = .idle)
    (ht : ∃ ret jni, t = { s with jni := jni, stopReturned := ret } ∧
      (jni = .idle ∨ jni = .quitLoad ∨ jni = .startSet ∧ s.gServerRunning = false)) : TearInv t := by
  obtain ⟨ret, jni, rfl, hjni⟩ := ht
  refine ⟨?_, h.built, h.nthreads, Tears.of_not_tearing ?_, h.misuse⟩
  · have hold : ¬s.jni.Joining := by rw [hidle]; decide
    rcases hjni with rfl | rfl | ⟨rfl, hclear⟩
    · refine h.threads.moveOn .idle hold (by decide) rfl rfl rfl rfl rfl rfl rfl ?_ (by rintro ⟨⟩)
        (by rintro ⟨⟩) (by rintro ⟨⟩)
      exact fun k hk => ⟨(h.threads.servers k hk).2.1, by decide, by decide, by decide⟩
    · refine h.threads.moveOn .quitLoad hold (by decide) rfl rfl rfl rfl rfl rfl rfl ?_
        (by rintro ⟨⟩)
        (by rintro ⟨⟩) (by rintro ⟨⟩)
      exact fun k hk => ⟨(h.threads.servers k hk).2.1, by decide, by decide, by decide⟩
    · -- a server thread that is not done runs under the flag
      refine h.threads.moveOn .startSet hold (by decide) rfl rfl rfl rfl rfl rfl rfl ?_
        (by rintro ⟨⟩)
        (by rintro ⟨⟩) (by rintro ⟨⟩)
      intro k hk
      exact absurd ((h.threads.servers k hk).2.1.symm.trans hclear) (by decide)
  · rcases hjni with rfl | rfl | ⟨rfl, -⟩ <;> exact id

theorem TearInv.step {s t : Life} {e : LifeEvent} (h : TearInv s) (hcond : StopAfterBind s e)
    (hstep : lifeStep s e = some t) : TearInv t := by
  cases e with
  | start =>
      simp only [lifeStep] at hstep
      split at hstep
      case isFalse => cases hstep
      case isTrue hidle =>
      split at hstep
      case isTrue =>
        cases hstep
        exact h.call hidle ⟨false, s.jni, rfl, Or.inl hidle⟩
      case isFalse hflag =>
        cases hstep
        exact h.call hidle ⟨false, .startSet, rfl, Or.inr (Or.inr ⟨rfl, by simpa using hflag⟩)⟩
  | stop =>
      simp only [lifeStep] at hstep
      split at hstep
      case isFalse => cases hstep
      case isTrue hidle =>
      split at hstep
      case isTrue =>
        cases hstep
        exact h.call hidle ⟨s.stopReturned, .quitLoad, rfl, Or.inr (Or.inl rfl)⟩
      case isFalse =>
        cases hstep
        exact h.call hidle ⟨true, s.jni, rfl, Or.inl hidle⟩
  | jni created => exact h.jniStep hcond hstep
  | server k created => exact h.serverStep hcond hstep
  | listener k ok count => exact h.listenerStep hcond hstep

end Life

/-- When every stop clears the listener table after the current listener thread has found it not
empty, with no other listener thread on its way, and every thread can be created, then
`socks5_server_quit` joins, destroys and frees nothing but what that listener thread has created,
and each of it once. -/
theorem quit_teardown {as : List LifeEvent} {t : Life}
    (hmeets : Meets Life.lifeStep Life.StopAfterBind Life.init as)
    (hrun : run Life.lifeStep Life.init as = some t) : t.misuse = [] :=
  (run_invariant_of_meets (fun _ _ _ h hcond hstep => h.step hcond hstep) Life.TearInv.init hmeets
    hrun).misuse

/-- Two cycles, each of which creates everything and tears it down. -/
theorem quit_teardown_twoCycles :
    ∃ t, run Life.lifeStep Life.init (startStop 1 ++ startStop 2) = some t ∧ t.jni = .idle ∧
      t.nListeners = 2 ∧ t.misuse = [] := by
  obtain ⟨t, hrun, hidle, htwo⟩ := exists_run_of_any (by decide +kernel :
    (run Life.lifeStep Life.init (startStop 1 ++ startStop 2)).any
      (fun t => decide (t.jni = .idle ∧ t.nListeners = 2)) = true)
  exact ⟨t, hrun, hidle, htwo, quit_teardown (by decide +kernel) hrun⟩

/-- A stop that clears the table just before `listener_task` tests `g_listener_count`: the listener
thread returns early, and `socks5_server_quit` shuts down a pool, frees its buffers and joins
workers that were never created. -/
theorem quit_tears_down_unbuilt :
    ∃ t, run Life.lifeStep Life.init
      [.start, .jni true, .jni true, .server 1 true, .server 1 true, .server 1 true,
        .listener 1 true 0, .listener 1 true 0, .listener 1 true 2, .stop, .jni true, .jni true,
        .jni true, .jni true, .listener 1 true 0, .listener 1 true 0, .listener 1 true 0,
        .jni true, .jni true, .jni true, .jni true, .jni true, .jni true, .jni true, .jni true,
        .jni true, .jni true, .jni true] = some t ∧
      t.misuse = [.jobPoolShutdown, .part .poolLock, .part .poolJobs, .part .poolThreads,
        .part (.udpWorker 0)] :=
  ⟨_, rfl, rfl⟩

end FiveGProxy
