import FiveGProxy.Library.Steps
import Mathlib.Logic.Function.Basic
import Mathlib.Data.Nat.Notation

/-!
# The map of the Java sockets

A Java socket has a descriptor of its own, and the engine gets a duplicate of it. `activeSockets`
finds the Java socket under the number of the duplicate. When the engine has closed the duplicate,
the system may hand out the number again at any time, so the entry has to be removed before.

The descriptors of the clients and of the listeners are among those of the rest of the process.
-/

namespace FiveGProxy

open Steps

namespace ActiveSockets

/-- Who has a descriptor open. -/
inductive Holder
  /-- The Java socket of the connection. -/
  | native (k : ℕ)
  /-- The engine has the duplicate. -/
  | duplicate (k : ℕ)
  /-- The rest of the process. -/
  | other
  deriving DecidableEq

/-- What the engine does with the descriptor at the end of a connection. -/
inductive TeardownStep
  /-- `release_java_socket`. -/
  | release
  | close
  deriving DecidableEq

/-- `conn_finalize`. -/
def connFinalize : List TeardownStep := [.release, .close]

/-- `udp_conn_finalize`. -/
def udpConnFinalize : List TeardownStep := [.release, .close]

/-- `handoff_to_worker` when there is no slot. -/
def slotExhausted : List TeardownStep := [.release, .close]

inductive Place
  /-- `createSocketBoundToNetwork` has a Java socket. -/
  | created
  /-- `fromSocket` has thrown. -/
  | failed
  /-- `detachFd` has returned the duplicate. -/
  | detached
  /-- The handshake thread has the number. -/
  | returned
  /-- A slot has the number. -/
  | held
  | teardown (todo : List TeardownStep)
  /-- `onSocketClosed` has taken the entry out of the map, and closes the socket. -/
  | closing (socket : Option ℕ) (todo : List TeardownStep)
  deriving DecidableEq

structure Connection where
  isUdp : Bool
  /-- The descriptor of the Java socket. -/
  native : ℕ
  /-- The duplicate. -/
  fd : ℕ
  finalized : Bool
  place : Place
  /-- The Java socket is closed. -/
  closed : Bool
  /-- How often `onSocketClosed` has closed the Java socket. -/
  released : ℕ

structure Sockets where
  fds : ℕ → Option Holder
  activeSockets : ℕ → Option ℕ
  connections : List Connection

inductive SocketEvent
  /-- A Java socket is made, and the system takes the number `fd`. -/
  | create (isUdp : Bool) (fd : ℕ)
  /-- `fromSocket` and `detachFd`; the system takes the number, unless `fromSocket` throws. -/
  | detach (k : ℕ) (fd : Option ℕ)
  /-- `activeSockets[fd] = socket`, and the number is returned. -/
  | insert (k : ℕ)
  /-- A slot takes the connection, or there is none. -/
  | handoff (k : ℕ) (slot : Bool)
  /-- `conn_finalize` or `udp_conn_finalize` is called. -/
  | finalize (k : ℕ)
  /-- The next step of the teardown. -/
  | teardown (k : ℕ)
  /-- The rest of the process opens a descriptor. -/
  | openOther (fd : ℕ)
  | closeOther (fd : ℕ)
  deriving DecidableEq

namespace Sockets

def init : Sockets where
  fds _ := none
  activeSockets _ := none
  connections := []

def update (st : Sockets) (k : ℕ) (f : Connection → Connection) : Sockets :=
  { st with connections := st.connections.modify k f }

def setFd (st : Sockets) (fd : ℕ) (h : Option Holder) : Sockets :=
  { st with fds := Function.update st.fds fd h }

/-- `socket.close()`; only the first one closes the descriptor. -/
def closeJava (st : Sockets) (k : ℕ) : Sockets :=
  match st.connections[k]? with
  | none => st
  | some c =>
      if c.closed then st
      else (st.setFd c.native none).update k fun c => { c with closed := true }

/-- `getEnv` says whether `release_java_socket` gets a `JNIEnv` in the thread that tears the
connection down. -/
def teardown (getEnv : ℕ → Bool) (st : Sockets) (k : ℕ) (c : Connection) : Option Sockets :=
  match c.place with
  | .teardown (.release :: todo) =>
      if getEnv k then
        let socket := st.activeSockets c.fd
        some ({ st with activeSockets := Function.update st.activeSockets c.fd none }.update k
          fun c => { c with place := .closing socket todo })
      else some (st.update k fun c => { c with place := .teardown todo })
  | .closing socket todo =>
      let st' := st.update k fun c => { c with place := .teardown todo }
      match socket with
      | none => some st'
      | some s => some ((st'.closeJava s).update s fun c => { c with released := c.released + 1 })
  | .teardown (.close :: todo) =>
      some ((st.setFd c.fd none).update k fun c => { c with place := .teardown todo })
  | _ => none

def step (getEnv : ℕ → Bool) (st : Sockets) : SocketEvent → Option Sockets
  | .create isUdp fd =>
      if st.fds fd = none then
        some { st.setFd fd (some (.native st.connections.length)) with
          connections := st.connections ++ [⟨isUdp, fd, 0, false, .created, false, 0⟩] }
      else none
  | .detach k fd => (st.connections[k]?).bind fun c =>
      if c.place = .created then
        match fd with
        | none => some ((st.closeJava k).update k fun c => { c with place := .failed })
        | some n =>
            if st.fds n = none then
              some ((st.setFd n (some (.duplicate k))).update k
                fun c => { c with fd := n, place := .detached })
            else none
      else none
  | .insert k => (st.connections[k]?).bind fun c =>
      if c.place = .detached then
        some ({ st with activeSockets := Function.update st.activeSockets c.fd (some k) }.update k
          fun c => { c with place := .returned })
      else none
  | .handoff k slot => (st.connections[k]?).bind fun c =>
      if c.place = .returned then
        some (st.update k fun c =>
          { c with place := if slot || c.isUdp then .held else .teardown slotExhausted })
      else none
  | .finalize k => (st.connections[k]?).bind fun c =>
      if c.finalized then some st
      else if c.place = .held then
        some (st.update k fun c =>
          { c with
            finalized := true
            place := .teardown (if c.isUdp then udpConnFinalize else connFinalize) })
      else none
  | .teardown k => (st.connections[k]?).bind fun c => st.teardown getEnv k c
  | .openOther fd => if st.fds fd = none then some (st.setFd fd (some .other)) else none
  | .closeOther fd => if st.fds fd = some .other then some (st.setFd fd none) else none

end Sockets

/-! ### The connections and their descriptors -/

def Connection.Entered (c : Connection) : Prop :=
  c.place = .returned ∨ c.place = .held ∨ c.place = .teardown [.release, .close]

/-- The engine, or the thread that is about to return the number, has the duplicate open. -/
def Connection.Live (c : Connection) : Prop :=
  c.place = .detached ∨ c.Entered ∨ (∃ s, c.place = .closing s [.close]) ∨
    c.place = .teardown [.close]

/-- The entry of the connection is in the map, or a release without a `JNIEnv` has left it there. -/
def Connection.Mapped (getEnv : ℕ → Bool) (k : ℕ) (c : Connection) : Prop :=
  c.Entered ∨ getEnv k = false ∧ (c.place = .teardown [.close] ∨ c.place = .teardown [])

namespace Sockets

variable {getEnv : ℕ → Bool} {st st' : Sockets} {k : ℕ} {c : Connection}

/-- The Java socket is open, and nobody has released it. -/
structure Unreleased (st : Sockets) (k : ℕ) (c : Connection) : Prop where
  closed : c.closed = false
  released : c.released = 0
  native : st.fds c.native = some (.native k)

/-- The Java socket is released if there was a `JNIEnv`, and open otherwise. -/
structure Released (getEnv : ℕ → Bool) (st : Sockets) (k : ℕ) (c : Connection) : Prop where
  closed : c.closed = getEnv k
  released : c.released = if getEnv k then 1 else 0
  native : c.closed = false → st.fds c.native = some (.native k)

/-- What holds for a connection in each of its places. -/
inductive Fits (getEnv : ℕ → Bool) (st : Sockets) (k : ℕ) (c : Connection) : Prop
  | created (hplace : c.place = .created) (hopen : st.Unreleased k c)
  | failed (hplace : c.place = .failed) (hclosed : c.closed = true) (hnever : c.released = 0)
  | detached (hplace : c.place = .detached) (hopen : st.Unreleased k c)
      (hfd : st.fds c.fd = some (.duplicate k))
  | entered (hplace : c.Entered) (hopen : st.Unreleased k c)
      (hfd : st.fds c.fd = some (.duplicate k)) (hentry : st.activeSockets c.fd = some k)
  | closing (hplace : c.place = .closing (some k) [.close]) (hopen : st.Unreleased k c)
      (hfd : st.fds c.fd = some (.duplicate k)) (henv : getEnv k = true)
  | released (hplace : c.place = .teardown [.close]) (hdone : Released getEnv st k c)
      (hfd : st.fds c.fd = some (.duplicate k))
  | ended (hplace : c.place = .teardown []) (hdone : Released getEnv st k c)

def Explained (getEnv : ℕ → Bool) (st : Sockets) (fd k : ℕ) : Prop :=
  ∃ c, st.connections[k]? = some c ∧ c.fd = fd ∧ c.Mapped getEnv k

structure Inv (getEnv : ℕ → Bool) (st : Sockets) : Prop where
  fits : ∀ k c, st.connections[k]? = some c → st.Fits getEnv k c
  entries : ∀ fd k, st.activeSockets fd = some k → st.Explained getEnv fd k

theorem Inv.init : Inv getEnv init where
  fits := by rintro _ _ ⟨⟩
  entries := by rintro _ _ ⟨⟩

/-! ### What a place tells -/

theorem Fits.of_created (h : st.Fits getEnv k c) (hplace : c.place = .created) :
    st.Unreleased k c := by
  cases h <;> simp_all [Connection.Entered]

theorem Fits.of_detached (h : st.Fits getEnv k c) (hplace : c.place = .detached) :
    st.Unreleased k c ∧ st.fds c.fd = some (.duplicate k) := by
  cases h <;> simp_all [Connection.Entered]

theorem Fits.of_entered (h : st.Fits getEnv k c) (hentered : c.Entered) :
    st.Unreleased k c ∧ st.fds c.fd = some (.duplicate k) ∧ st.activeSockets c.fd = some k := by
  cases h with
  | entered _ hopen hfd hentry => exact ⟨hopen, hfd, hentry⟩
  | _ => simp_all [Connection.Entered]

theorem Fits.of_closing (h : st.Fits getEnv k c) {s : Option ℕ} {todo : List TeardownStep}
    (hplace : c.place = .closing s todo) : s = some k ∧ todo = [.close] ∧ st.Unreleased k c ∧
      st.fds c.fd = some (.duplicate k) ∧ getEnv k = true := by
  cases h <;> simp_all [Connection.Entered]

theorem Fits.of_release (h : st.Fits getEnv k c) {todo : List TeardownStep}
    (hplace : c.place = .teardown (.release :: todo)) : todo = [.close] := by
  cases h <;> simp_all [Connection.Entered]

theorem Fits.of_close (h : st.Fits getEnv k c) {todo : List TeardownStep}
    (hplace : c.place = .teardown (.close :: todo)) :
    todo = [] ∧ Released getEnv st k c ∧ st.fds c.fd = some (.duplicate k) := by
  cases h <;> simp_all [Connection.Entered]

theorem Fits.of_ended (h : st.Fits getEnv k c) (hplace : c.place = .teardown []) :
    Released getEnv st k c := by
  cases h <;> simp_all [Connection.Entered]

theorem Fits.duplicate (h : st.Fits getEnv k c) (hlive : c.Live) :
    st.fds c.fd = some (.duplicate k) := by
  obtain hplace | hentered | ⟨s, hplace⟩ | hplace := hlive
  · exact (h.of_detached hplace).2
  · exact (h.of_entered hentered).2.1
  · exact (h.of_closing hplace).2.2.2.1
  · exact (h.of_close hplace).2.2

theorem setFd_fds_of_ne {fd n : ℕ} {holder : Option Holder} (hne : st.fds n ≠ st.fds fd) :
    (st.setFd fd holder).fds n = st.fds n :=
  Function.update_of_ne (fun h => hne (congrArg st.fds h)) _ _

theorem Fits.frame (h : st.Fits getEnv k c)
    (hfds : ∀ n, st.fds n = some (.native k) ∨ st.fds n = some (.duplicate k) →
      st'.fds n = st.fds n)
    (hmap : c.Entered → st'.activeSockets c.fd = st.activeSockets c.fd) :
    st'.Fits getEnv k c := by
  have hdup : st.fds c.fd = some (.duplicate k) → st'.fds c.fd = some (.duplicate k) :=
    fun hfd => (hfds _ (.inr hfd)).trans hfd
  have hnative : st.fds c.native = some (.native k) → st'.fds c.native = some (.native k) :=
    fun hfd => (hfds _ (.inl hfd)).trans hfd
  have hopen' : st.Unreleased k c → st'.Unreleased k c :=
    fun hopen => ⟨hopen.closed, hopen.released, hnative hopen.native⟩
  have hdone' : Released getEnv st k c → Released getEnv st' k c :=
    fun hdone => ⟨hdone.closed, hdone.released, fun hc => hnative (hdone.native hc)⟩
  cases h with
  | created hplace hopen => exact .created hplace (hopen' hopen)
  | failed hplace hclosed hnever => exact .failed hplace hclosed hnever
  | detached hplace hopen hfd => exact .detached hplace (hopen' hopen) (hdup hfd)
  | entered hplace hopen hfd hentry =>
      exact .entered hplace (hopen' hopen) (hdup hfd) ((hmap hplace).trans hentry)
  | closing hplace hopen hfd henv => exact .closing hplace (hopen' hopen) (hdup hfd) henv
  | released hplace hdone hfd => exact .released hplace (hdone' hdone) (hdup hfd)
  | ended hplace hdone => exact .ended hplace (hdone' hdone)

variable {f : Connection → Connection}

/-- A step of the connection `k`, which alone may lose a descriptor or its entry by it. -/
theorem Inv.connectionStep (h : Inv getEnv st) (hc : st.connections[k]? = some c)
    (hconnections : st'.connections = st.connections.modify k f)
    (hfds : ∀ n j, j ≠ k → st.fds n = some (.native j) ∨ st.fds n = some (.duplicate j) →
      st'.fds n = st.fds n)
    (hmap : ∀ n, st'.activeSockets n = st.activeSockets n ∨ st.fds n = some (.duplicate k))
    (hentries : ∀ n j, st'.activeSockets n = some j → j ≠ k → st.activeSockets n = some j)
    (hfits : st'.Fits getEnv k (f c))
    (hself : ∀ n, st'.activeSockets n = some k → (f c).fd = n ∧ (f c).Mapped getEnv k) :
    Inv getEnv st' := by
  have hsame : st'.connections[k]? = some (f c) := by simp [hconnections, hc]
  have hother : ∀ {j}, j ≠ k → st'.connections[j]? = st.connections[j]? := by
    intro j hj
    simp [hconnections, Ne.symm hj]
  constructor
  · intro j d hd
    by_cases hj : j = k
    · subst hj
      obtain rfl := Option.some.inj (hsame.symm.trans hd)
      exact hfits
    · rw [hother hj] at hd
      have hold := h.fits j d hd
      refine hold.frame (fun n => hfds n j hj) fun hentered => ?_
      refine (hmap d.fd).resolve_right fun hk => hj ?_
      cases hk.symm.trans (hold.of_entered hentered).2.1
      rfl
  · intro n j hn
    by_cases hj : j = k
    · subst hj
      exact ⟨f c, hsame, hself n hn⟩
    · obtain ⟨d, hd, hfd, hplace⟩ := h.entries n j (hentries n j hn hj)
      exact ⟨d, (hother hj).trans hd, hfd, hplace⟩

theorem Inv.keepMap (h : Inv getEnv st) (hc : st.connections[k]? = some c)
    (hconnections : st'.connections = st.connections.modify k f)
    (hfds : ∀ n j, j ≠ k → st.fds n = some (.native j) ∨ st.fds n = some (.duplicate j) →
      st'.fds n = st.fds n)
    (hmap : st'.activeSockets = st.activeSockets) (hfits : st'.Fits getEnv k (f c))
    (hself : c.Mapped getEnv k → (f c).fd = c.fd ∧ (f c).Mapped getEnv k) : Inv getEnv st' := by
  refine h.connectionStep hc hconnections hfds (fun n => .inl (by rw [hmap]))
    (fun n j hn _ => by rwa [hmap] at hn) hfits fun n hn => ?_
  rw [hmap] at hn
  obtain ⟨d, hd, rfl, hplace⟩ := h.entries n k hn
  obtain rfl := Option.some.inj (hc.symm.trans hd)
  exact hself hplace

theorem update_update (f g : Connection → Connection) :
    (st.update k f).update k g = st.update k fun c => g (f c) := by
  simp only [update, List.modify_modify_eq]
  rfl

/-- The first `socket.close()`. -/
theorem closeJava_eq (hc : st.connections[k]? = some c) (hopen : c.closed = false) :
    st.closeJava k = (st.setFd c.native none).update k fun c => { c with closed := true } := by
  simp [closeJava, hc, hopen]

theorem Explained.frame {n : ℕ} {j : ℕ} (h : st.Explained getEnv n j)
    (hconnections : ∀ d, st.connections[j]? = some d → st'.connections[j]? = some d) :
    st'.Explained getEnv n j := by
  obtain ⟨d, hd, hfd, hplace⟩ := h
  exact ⟨d, hconnections d hd, hfd, hplace⟩

theorem Inv.create (h : Inv getEnv st) (isUdp : Bool) {fd : ℕ} (hfree : st.fds fd = none) :
    Inv getEnv { st.setFd fd (some (.native st.connections.length)) with
      connections := st.connections ++ [⟨isUdp, fd, 0, false, .created, false, 0⟩] } := by
  constructor
  · intro j d hd
    change (st.connections ++ [_])[j]? = _ at hd
    rw [List.getElem?_append] at hd
    split at hd
    · refine (h.fits j d hd).frame (fun n hn => setFd_fds_of_ne ?_) fun _ => rfl
      rcases hn with hn | hn <;> simp [hn, hfree]
    · obtain ⟨rfl, rfl⟩ : j = st.connections.length ∧
          ⟨isUdp, fd, 0, false, .created, false, 0⟩ = d := by
        obtain ⟨hlt, heq⟩ := List.getElem?_eq_some_iff.mp hd
        simp only [List.length_singleton, Nat.lt_one_iff] at hlt
        simp only [List.getElem_singleton] at heq
        exact ⟨by omega, heq⟩
      exact .created rfl ⟨rfl, rfl, Function.update_self ..⟩
  · intro n j hn
    refine (h.entries n j hn).frame fun d hd => ?_
    exact (List.getElem?_append_left (List.getElem?_eq_some_iff.mp hd).1).trans hd

/-- `fromSocket` throws. -/
theorem Inv.fail (h : Inv getEnv st) (hc : st.connections[k]? = some c)
    (hplace : c.place = .created) :
    Inv getEnv ((st.closeJava k).update k fun c => { c with place := .failed }) := by
  have hopen := (h.fits k c hc).of_created hplace
  rw [closeJava_eq hc hopen.closed, update_update]
  refine h.keepMap hc rfl (fun n j hj hn => setFd_fds_of_ne ?_) rfl (.failed rfl rfl hopen.released)
    fun hmapped => ?_
  · rcases hn with hn | hn <;> simp [hn, hopen.native, hj]
  · simp [Connection.Mapped, Connection.Entered, hplace] at hmapped

theorem Inv.detach (h : Inv getEnv st) (hc : st.connections[k]? = some c)
    (hplace : c.place = .created) {n : ℕ} (hfree : st.fds n = none) :
    Inv getEnv ((st.setFd n (some (.duplicate k))).update k
      fun c => { c with fd := n, place := .detached }) := by
  have hopen := (h.fits k c hc).of_created hplace
  have hnative : (st.setFd n (some (.duplicate k))).fds c.native = some (.native k) := by
    rw [setFd_fds_of_ne (by simp [hopen.native, hfree]), hopen.native]
  refine h.keepMap hc rfl (fun m j hj hm => setFd_fds_of_ne ?_) rfl
    (.detached rfl ⟨hopen.closed, hopen.released, hnative⟩ (Function.update_self ..))
    fun hmapped => ?_
  · rcases hm with hm | hm <;> simp [hm, hfree]
  · simp [Connection.Mapped, Connection.Entered, hplace] at hmapped

theorem Inv.insert (h : Inv getEnv st) (hc : st.connections[k]? = some c)
    (hplace : c.place = .detached) :
    Inv getEnv ({ st with activeSockets := Function.update st.activeSockets c.fd (some k) }.update k
      fun c => { c with place := .returned }) := by
  obtain ⟨hopen, hfd⟩ := (h.fits k c hc).of_detached hplace
  refine h.connectionStep hc rfl (fun _ _ _ _ => rfl) (fun n => ?_) (fun n j hn hj => ?_)
    (.entered (.inl rfl) ⟨hopen.closed, hopen.released, hopen.native⟩ hfd
      (Function.update_self ..)) fun n hn => ?_
  · by_cases hnfd : n = c.fd
    · exact .inr (hnfd ▸ hfd)
    · exact .inl (Function.update_of_ne hnfd _ _)
  · by_cases hnfd : n = c.fd
    · subst hnfd
      have hentry : Function.update st.activeSockets c.fd (some k) c.fd = some k :=
        Function.update_self ..
      exact absurd (Option.some.inj (hentry.symm.trans hn)).symm hj
    · exact (Function.update_of_ne hnfd _ _).symm.trans hn
  · by_cases hnfd : n = c.fd
    · exact ⟨hnfd.symm, .inl (.inl rfl)⟩
    · obtain ⟨d, hd, -, hmapped⟩ := h.entries n k ((Function.update_of_ne hnfd _ _).symm.trans hn)
      obtain rfl := Option.some.inj (hc.symm.trans hd)
      simp [Connection.Mapped, Connection.Entered, hplace] at hmapped

theorem Inv.pass (h : Inv getEnv st) (hc : st.connections[k]? = some c) (hentered : c.Entered)
    (hf : (f c).native = c.native ∧ (f c).fd = c.fd ∧ (f c).closed = c.closed ∧
      (f c).released = c.released)
    (hplace : (f c).place = .held ∨ (f c).place = .teardown [.release, .close]) :
    Inv getEnv (st.update k f) := by
  obtain ⟨hopen, hfd, hentry⟩ := (h.fits k c hc).of_entered hentered
  obtain ⟨hnative, hsame, hclosed, hreleased⟩ := hf
  refine h.keepMap hc rfl (fun _ _ _ _ => rfl) rfl (.entered (.inr hplace) ⟨?_, ?_, ?_⟩ ?_ ?_)
    fun _ => ⟨hsame, .inl (.inr hplace)⟩
  · exact hclosed.trans hopen.closed
  · exact hreleased.trans hopen.released
  · exact (congrArg st.fds hnative).trans hopen.native
  · exact (congrArg st.fds hsame).trans hfd
  · exact (congrArg st.activeSockets hsame).trans hentry

/-- `release_java_socket` with a `JNIEnv`, as far as the entry. -/
theorem Inv.remove (h : Inv getEnv st) (hc : st.connections[k]? = some c)
    (hplace : c.place = .teardown [.release, .close]) (henv : getEnv k = true) :
    Inv getEnv ({ st with activeSockets := Function.update st.activeSockets c.fd none }.update k
      fun c' => { c' with place := .closing (st.activeSockets c.fd) [.close] }) := by
  obtain ⟨hopen, hfd, hentry⟩ := (h.fits k c hc).of_entered (.inr (.inr hplace))
  refine h.connectionStep hc rfl (fun _ _ _ _ => rfl) (fun n => ?_) (fun n j hn hj => ?_)
    (.closing (congrArg (Place.closing · [.close]) hentry)
      ⟨hopen.closed, hopen.released, hopen.native⟩ hfd henv) fun n hn => ?_
  · by_cases hnfd : n = c.fd
    · exact .inr (hnfd ▸ hfd)
    · exact .inl (Function.update_of_ne hnfd _ _)
  · by_cases hnfd : n = c.fd
    · subst hnfd
      cases (Function.update_self ..).symm.trans hn
    · exact (Function.update_of_ne hnfd _ _).symm.trans hn
  · by_cases hnfd : n = c.fd
    · subst hnfd
      cases (Function.update_self ..).symm.trans hn
    · obtain ⟨d, hd, hsame, -⟩ := h.entries n k ((Function.update_of_ne hnfd _ _).symm.trans hn)
      obtain rfl := Option.some.inj (hc.symm.trans hd)
      exact absurd hsame.symm hnfd

/-- `release_java_socket` without a `JNIEnv`. -/
theorem Inv.skip (h : Inv getEnv st) (hc : st.connections[k]? = some c)
    (hplace : c.place = .teardown [.release, .close]) (henv : getEnv k = false) :
    Inv getEnv (st.update k fun c => { c with place := .teardown [.close] }) := by
  obtain ⟨hopen, hfd, -⟩ := (h.fits k c hc).of_entered (.inr (.inr hplace))
  refine h.keepMap hc rfl (fun _ _ _ _ => rfl) rfl (.released rfl ⟨?_, ?_, fun _ => hopen.native⟩ hfd)
    fun _ => ⟨rfl, .inr ⟨henv, .inl rfl⟩⟩
  · exact hopen.closed.trans henv.symm
  · simp [hopen.released, henv]

/-- `onSocketClosed` closes the Java socket of the connection. -/
theorem Inv.release (h : Inv getEnv st) (hc : st.connections[k]? = some c) {s : Option ℕ}
    (hplace : c.place = .closing s [.close]) :
    Inv getEnv ((st.setFd c.native none).update k fun c =>
      { c with place := .teardown [.close], closed := true, released := c.released + 1 }) := by
  obtain ⟨-, -, hopen, hfd, henv⟩ := (h.fits k c hc).of_closing hplace
  have hfd' : (st.setFd c.native none).fds c.fd = some (.duplicate k) := by
    rw [setFd_fds_of_ne (by simp [hopen.native, hfd]), hfd]
  refine h.keepMap hc rfl (fun n j hj hn => setFd_fds_of_ne ?_) rfl
    (.released rfl ⟨henv.symm, ?_, by rintro ⟨⟩⟩ hfd') fun hmapped => ?_
  · rcases hn with hn | hn <;> simp [hn, hopen.native, hj]
  · simp [hopen.released, henv]
  · simp [Connection.Mapped, Connection.Entered, hplace] at hmapped

theorem Inv.close (h : Inv getEnv st) (hc : st.connections[k]? = some c)
    (hplace : c.place = .teardown [.close]) :
    Inv getEnv ((st.setFd c.fd none).update k fun c => { c with place := .teardown [] }) := by
  obtain ⟨-, hdone, hfd⟩ := (h.fits k c hc).of_close hplace
  have hnative : c.closed = false → (st.setFd c.fd none).fds c.native = some (.native k) := by
    intro hopen
    rw [setFd_fds_of_ne (by simp [hdone.native hopen, hfd]), hdone.native hopen]
  refine h.keepMap hc rfl (fun n j hj hn => setFd_fds_of_ne ?_) rfl
    (.ended rfl ⟨hdone.closed, hdone.released, hnative⟩) fun hmapped => ?_
  · rcases hn with hn | hn <;> simp [hn, hfd, hj]
  · obtain hentered | ⟨henv, -⟩ := hmapped
    · simp [Connection.Entered, hplace] at hentered
    · exact ⟨rfl, .inr ⟨henv, .inr rfl⟩⟩

theorem Inv.other (h : Inv getEnv st) {fd : ℕ} (holder : Option Holder)
    (hfd : st.fds fd = none ∨ st.fds fd = some .other) : Inv getEnv (st.setFd fd holder) where
  fits j d hd := by
    refine (h.fits j d hd).frame (fun n hn => setFd_fds_of_ne ?_) fun _ => rfl
    rcases hn with hn | hn <;> rcases hfd with hfd | hfd <;> simp [hn, hfd]
  entries n j hn := (h.entries n j hn).frame fun _ hd => hd

theorem closing_eq (hc : st.connections[k]? = some c) (hopen : c.closed = false)
    (todo : List TeardownStep) :
    (((st.update k fun c => { c with place := .teardown todo }).closeJava k).update k
      fun c => { c with released := c.released + 1 }) =
    (st.setFd c.native none).update k fun c =>
      { c with place := .teardown todo, closed := true, released := c.released + 1 } := by
  have hc' : (st.update k fun c => { c with place := .teardown todo }).connections[k]? =
      some { c with place := .teardown todo } := by
    simp [update, hc]
  rw [closeJava_eq hc' hopen, update_update]
  exact @update_update (st.setFd c.native none) _ _ _

theorem Inv.teardown (h : Inv getEnv st) (hc : st.connections[k]? = some c)
    (hstep : st.teardown getEnv k c = some st') : Inv getEnv st' := by
  have hfits := h.fits k c hc
  unfold Sockets.teardown at hstep
  split at hstep
  · rename_i todo hplace
    obtain rfl := hfits.of_release hplace
    split at hstep
    · obtain rfl := Option.some.inj hstep
      exact h.remove hc hplace ‹_›
    · obtain rfl := Option.some.inj hstep
      exact h.skip hc hplace (eq_false_of_ne_true ‹_›)
  · rename_i socket todo hplace
    obtain ⟨rfl, rfl, hopen, -⟩ := hfits.of_closing hplace
    obtain rfl := Option.some.inj hstep
    rw [closing_eq hc hopen.closed]
    exact h.release hc hplace
  · rename_i todo hplace
    obtain ⟨rfl, -⟩ := hfits.of_close hplace
    obtain rfl := Option.some.inj hstep
    exact h.close hc hplace
  · cases hstep

theorem Inv.step (h : Inv getEnv st) {ev : SocketEvent} (hstep : st.step getEnv ev = some st') :
    Inv getEnv st' := by
  cases ev with
  | create isUdp fd =>
      rw [Sockets.step] at hstep
      split at hstep
      · obtain rfl := Option.some.inj hstep
        exact h.create isUdp ‹_›
      · cases hstep
  | detach k fd =>
      obtain ⟨c, hc, hstep⟩ := Option.bind_eq_some_iff.mp hstep
      split at hstep
      · split at hstep
        · obtain rfl := Option.some.inj hstep
          exact h.fail hc ‹_›
        · split at hstep
          · obtain rfl := Option.some.inj hstep
            exact h.detach hc ‹_› ‹_›
          · cases hstep
      · cases hstep
  | insert k =>
      obtain ⟨c, hc, hstep⟩ := Option.bind_eq_some_iff.mp hstep
      split at hstep
      · obtain rfl := Option.some.inj hstep
        exact h.insert hc ‹_›
      · cases hstep
  | handoff k slot =>
      obtain ⟨c, hc, hstep⟩ := Option.bind_eq_some_iff.mp hstep
      split at hstep
      · obtain rfl := Option.some.inj hstep
        refine h.pass hc (.inl ‹_›) ⟨rfl, rfl, rfl, rfl⟩ ?_
        dsimp only
        split
        · exact .inl rfl
        · exact .inr rfl
      · cases hstep
  | finalize k =>
      obtain ⟨c, hc, hstep⟩ := Option.bind_eq_some_iff.mp hstep
      split at hstep
      · obtain rfl := Option.some.inj hstep
        exact h
      · split at hstep
        · obtain rfl := Option.some.inj hstep
          refine h.pass hc (.inr (.inl ‹_›)) ⟨rfl, rfl, rfl, rfl⟩ (.inr ?_)
          dsimp only
          split <;> rfl
        · cases hstep
  | teardown k =>
      obtain ⟨c, hc, hstep⟩ := Option.bind_eq_some_iff.mp hstep
      exact h.teardown hc hstep
  | openOther fd =>
      rw [Sockets.step] at hstep
      split at hstep
      · obtain rfl := Option.some.inj hstep
        exact h.other _ (.inl ‹_›)
      · cases hstep
  | closeOther fd =>
      rw [Sockets.step] at hstep
      split at hstep
      · obtain rfl := Option.some.inj hstep
        exact h.other _ (.inr ‹_›)
      · cases hstep

theorem Fits.released_le (h : st.Fits getEnv k c) : c.released ≤ 1 := by
  cases h with
  | created _ hopen | detached _ hopen | entered _ hopen | closing _ hopen => simp [hopen.released]
  | failed _ _ hnever => simp [hnever]
  | released _ hdone | ended _ hdone =>
      rw [hdone.released]
      split <;> omega

theorem Inv.released (h : Inv getEnv st) (hc : st.connections[k]? = some c)
    (hplace : c.place = .teardown []) (henv : getEnv k = true) :
    c.released = 1 ∧ c.closed = true ∧ ∀ fd, st.activeSockets fd ≠ some k := by
  obtain ⟨hclosed, hreleased, -⟩ := (h.fits k c hc).of_ended hplace
  rw [henv] at hreleased hclosed
  refine ⟨hreleased, hclosed, fun fd hfd => ?_⟩
  obtain ⟨d, hd, -, hmapped⟩ := h.entries fd k hfd
  obtain rfl := Option.some.inj (hc.symm.trans hd)
  simp [Connection.Mapped, Connection.Entered, hplace, henv] at hmapped

/-- An entry that is overwritten was left behind by a release without a `JNIEnv`. -/
theorem Inv.stale (h : Inv getEnv st) (hc : st.connections[k]? = some c)
    (hplace : c.place = .detached) {j : ℕ} (hj : st.activeSockets c.fd = some j) :
    getEnv j = false ∧ ∃ d, st.connections[j]? = some d ∧ d.place = .teardown [] := by
  obtain ⟨d, hd, hfd, hplace'⟩ := h.entries _ j hj
  have hfds := ((h.fits k c hc).of_detached hplace).2
  -- the number belongs to the new connection, so the other one has closed it
  have hdead : ¬d.Live := by
    intro hlive
    have hfds' := (h.fits j d hd).duplicate hlive
    rw [hfd, hfds] at hfds'
    cases hfds'
    obtain rfl := Option.some.inj (hc.symm.trans hd)
    simp [Connection.Mapped, Connection.Entered, hplace] at hplace'
  obtain hentered | ⟨henv, hclose | hended⟩ := hplace'
  · exact absurd (.inr (.inl hentered)) hdead
  · exact absurd (.inr (.inr (.inr hclose))) hdead
  · exact ⟨henv, d, hd, hended⟩

theorem teardown_isSome (hc : st.connections[k]? = some c)
    (hplace : (∃ a todo, c.place = .teardown (a :: todo)) ∨ ∃ s todo, c.place = .closing s todo) :
    (step getEnv st (.teardown k)).isSome = true := by
  rw [step, hc, Option.bind_some, teardown]
  obtain ⟨a, todo, hplace⟩ | ⟨s, todo, hplace⟩ := hplace
  · rw [hplace]
    cases a with
    | release =>
        dsimp only
        split <;> rfl
    | close => rfl
  · rw [hplace]
    cases s <;> rfl

end Sockets

end ActiveSockets

open ActiveSockets Sockets

/-- In every state of every run: the entry that `release_java_socket` is about to remove is that of
the connection being torn down, and so is the Java socket that it is about to close; the engine
closes its own duplicate; an insertion overwrites no entry, unless a release without a `JNIEnv` has
left it behind and its connection has ended; and the Java socket of a connection that has ended was
released exactly once, if `release_java_socket` had a `JNIEnv`. -/
theorem java_socket_released_once {getEnv : ℕ → Bool} {evs : List SocketEvent} {st : Sockets}
    (hrun : run (step getEnv) init evs = some st) {k : ℕ} {c : Connection}
    (hc : st.connections[k]? = some c) :
    (∀ todo, c.place = .teardown (.release :: todo) → st.activeSockets c.fd = some k) ∧
      (∀ s todo, c.place = .closing s todo → s = some k) ∧
      (∀ todo, c.place = .teardown (.close :: todo) → st.fds c.fd = some (.duplicate k)) ∧
      (c.place = .detached → ∀ j, st.activeSockets c.fd = some j →
        getEnv j = false ∧ ∃ d, st.connections[j]? = some d ∧ d.place = .teardown []) ∧
      c.released ≤ 1 ∧
      (c.place = .teardown [] → getEnv k = true →
        c.released = 1 ∧ c.closed = true ∧ ∀ fd, st.activeSockets fd ≠ some k) ∧
      ((∃ a todo, c.place = .teardown (a :: todo)) ∨ (∃ s todo, c.place = .closing s todo) →
        (step getEnv st (.teardown k)).isSome = true) := by
  have hinv : Inv getEnv st :=
    run_invariant (fun _ _ _ h hstep => h.step hstep) Inv.init hrun
  have hfits := hinv.fits k c hc
  refine ⟨fun todo hplace => ?_, fun s todo hplace => (hfits.of_closing hplace).1,
    fun todo hplace => ?_, fun hplace j hj => hinv.stale hc hplace hj, hfits.released_le,
    hinv.released hc, teardown_isSome hc⟩
  · obtain rfl := hfits.of_release hplace
    exact (hfits.of_entered (.inr (.inr hplace))).2.2
  · exact (hfits.of_close hplace).2.2

/-- The numbers of a connection go to the next one as soon as they are free. -/
def reusedNumbers : List SocketEvent :=
  [.create false 3, .detach 0 (some 4), .insert 0, .handoff 0 true, .finalize 0, .teardown 0,
    .teardown 0, .create true 3, .teardown 0, .detach 1 (some 4), .insert 1, .finalize 0,
    .handoff 1 true, .finalize 1, .teardown 1, .teardown 1, .teardown 1]

theorem java_socket_released_once_reusedNumbers : ∃ st c,
    run (step fun _ => true) init reusedNumbers = some st ∧ st.connections[1]? = some c ∧
      c.released = 1 ∧ c.closed = true ∧ ∀ fd, st.activeSockets fd ≠ some 1 := by
  refine ⟨_, _, rfl, rfl, ?_⟩
  have hrun : run (step fun _ => true) init reusedNumbers = some _ := rfl
  exact (java_socket_released_once (k := 1) hrun rfl).2.2.2.2.2.1 rfl rfl

end FiveGProxy
