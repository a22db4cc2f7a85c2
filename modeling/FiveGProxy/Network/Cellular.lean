import FiveGProxy.Library.Steps
import Mathlib.Data.List.Basic

/-!
# The cellular network manager

`CellularNetworkManager` keeps the network of the moment and one waiter. Any number of coroutines
are in `awaitNetwork`, each with a continuation that the waiter resumes, that a second look at the
network resumes, or that the timeout cancels. The callbacks of the monitor come one after the other
on a thread of the system, and other threads stop the monitoring or release the network meanwhile.

Each step is one access to `cellularNetwork` or `pendingNetworkWaiter`, to the flag `resumed` of a
call or to its continuation. Which callbacks come and when a timeout is over is left open.
-/

namespace FiveGProxy

open Steps

variable {N : Type*}

/-- A `CancellableContinuation`. -/
inductive Continuation (N : Type*)
  | active
  | resumed (network : N)
  | cancelled
  deriving DecidableEq

/-- What `invokeOnCancellation` has been given: nothing yet, a handler that waits for a
cancellation, or one that the cancelling thread is about to run. -/
inductive CancelHandler
  | absent
  | registered
  | due
  deriving DecidableEq

/-- Where a call of `awaitNetwork` is. -/
inductive AwaitPc (N : Type*)
  /-- `cellularNetwork?.let { return it }` -/
  | check
  /-- `pendingNetworkWaiter = { network -> resumeOnce(network) }` -/
  | install
  /-- `continuation.invokeOnCancellation` -/
  | register
  /-- `cellularNetwork?.let { resumeOnce(it) }` -/
  | recheck
  /-- `resumed.compareAndSet(false, true)` -/
  | claim (network : N)
  /-- `continuation.resume(network)` -/
  | resume (network : N)
  | suspended
  /-- The `finally` block. -/
  | finish (result : Option N)
  | returned (result : Option N)
  deriving DecidableEq

structure AwaitCall (N : Type*) where
  pc : AwaitPc N
  resumed : Bool
  cont : Continuation N
  handler : CancelHandler
  deriving DecidableEq

/-- Where the thread of the callbacks is. -/
inductive CallbackPc (N : Type*)
  | idle
  /-- `onAvailable`: `cellularNetwork = network` -/
  | store (network : N)
  /-- `pendingNetworkWaiter?.invoke(network)` -/
  | waiter (network : N)
  | claim (call : ℕ) (network : N)
  | resume (call : ℕ) (network : N)
  /-- `onLost`: `network == cellularNetwork` -/
  | lost (network : N)
  /-- `cellularNetwork = null` -/
  | clear
  deriving DecidableEq

/-- A call is known by its place in `calls`, and so is its waiter. -/
structure CellularNetworkManager (N : Type*) where
  cellularNetwork : Option N
  pendingNetworkWaiter : Option ℕ
  calls : List (AwaitCall N)
  callback : CallbackPc N
  /-- How many threads are in `releaseCellularNetwork` behind `stopMonitoring`. -/
  releasing : ℕ
  /-- A continuation has been resumed twice, which throws. -/
  alreadyResumed : Bool

inductive CellularEvent (N : Type*)
  | awaitNetwork
  /-- A call takes its next step. -/
  | go (k : ℕ)
  /-- `withTimeoutOrNull` is over for a call. -/
  | timeout (k : ℕ)
  /-- The handler of a cancelled call runs. -/
  | onCancel (k : ℕ)
  | onAvailable (network : N)
  | onLost (network : N)
  /-- The thread of the callbacks takes its next step. -/
  | callback
  | stopMonitoring
  | releaseCellularNetwork
  /-- The second store of `releaseCellularNetwork`. -/
  | releaseNetwork
  deriving DecidableEq

def AwaitPc.timed : AwaitPc N → Bool
  | check | finish _ | returned _ => false
  | install | register | recheck | claim _ | resume _ | suspended => true

/-- The waiter of the call has been installed, and the call has not come to its `finally`. -/
def AwaitPc.installed : AwaitPc N → Bool
  | check | install | finish _ | returned _ => false
  | register | recheck | claim _ | resume _ | suspended => true

def Continuation.isResumed : Continuation N → Bool
  | resumed _ => true
  | active | cancelled => false

/-- `resume`: a cancelled continuation ignores it. -/
def Continuation.resume (network : N) : Continuation N → Continuation N
  | active => .resumed network
  | resumed n => .resumed n
  | cancelled => .cancelled

namespace CellularNetworkManager

def init : CellularNetworkManager N := ⟨none, none, [], .idle, 0, false⟩

variable {s : CellularNetworkManager N}

def setCall (s : CellularNetworkManager N) (k : ℕ) (c : AwaitCall N) : CellularNetworkManager N :=
  { s with calls := s.calls.set k c }

/-- `resume` of the continuation of a call. -/
def resumeCall (s : CellularNetworkManager N) (k : ℕ) (c : AwaitCall N) (network : N) :
    CellularNetworkManager N :=
  { s.setCall k { c with cont := c.cont.resume network } with
    alreadyResumed := s.alreadyResumed || c.cont.isResumed }

theorem setCall_calls {k j : ℕ} {c c₀ c' : AwaitCall N} (hc : s.calls[k]? = some c₀)
    (h : (s.setCall k c).calls[j]? = some c') :
    j = k ∧ c' = c ∨ j ≠ k ∧ s.calls[j]? = some c' := by
  by_cases hj : j = k
  · subst hj
    obtain ⟨hlt, -⟩ := List.getElem?_eq_some_iff.mp hc
    rw [setCall, List.getElem?_set_self hlt] at h
    exact Or.inl ⟨rfl, (Option.some.inj h).symm⟩
  · rw [setCall, List.getElem?_set_ne (Ne.symm hj)] at h
    exact Or.inr ⟨hj, h⟩

def goStep (s : CellularNetworkManager N) (k : ℕ) (c : AwaitCall N) :
    Option (CellularNetworkManager N) :=
  match c.pc with
  | .check =>
      match s.cellularNetwork with
      | some n => some (s.setCall k { c with pc := .returned (some n) })
      | none => some (s.setCall k { c with pc := .install })
  | .install => some { s.setCall k { c with pc := .register } with pendingNetworkWaiter := some k }
  | .register =>
      match c.cont with
      | .cancelled => some { s.setCall k { c with pc := .recheck } with pendingNetworkWaiter := none }
      | .active | .resumed _ => some (s.setCall k { c with pc := .recheck, handler := .registered })
  | .recheck =>
      match s.cellularNetwork with
      | some n => some (s.setCall k { c with pc := .claim n })
      | none => some (s.setCall k { c with pc := .suspended })
  | .claim n =>
      if c.resumed then some (s.setCall k { c with pc := .suspended })
      else some (s.setCall k { c with pc := .resume n, resumed := true })
  | .resume n => some (s.resumeCall k { c with pc := .suspended } n)
  | .suspended =>
      match c.cont with
      | .active => none
      | .resumed n => some (s.setCall k { c with pc := .finish (some n) })
      | .cancelled => some (s.setCall k { c with pc := .finish none })
  | .finish r => some { s.setCall k { c with pc := .returned r } with pendingNetworkWaiter := none }
  | .returned _ => none

/-- The end of the timeout. A continuation that has been resumed is not cancelled any more, but the
call is, as long as it has not gone on. -/
def timeoutStep (s : CellularNetworkManager N) (k : ℕ) (c : AwaitCall N) :
    Option (CellularNetworkManager N) :=
  match c.cont, c.pc with
  | .active, pc =>
      if pc.timed then
        some (s.setCall k { c with
          cont := .cancelled
          handler := if c.handler = .registered then .due else c.handler })
      else none
  | .resumed _, .suspended => some (s.setCall k { c with pc := .finish none })
  | _, _ => none

def callbackStep [DecidableEq N] (s : CellularNetworkManager N) : Option (CellularNetworkManager N) :=
  match s.callback with
  | .idle => none
  | .store n => some { s with cellularNetwork := some n, callback := .waiter n }
  | .waiter n =>
      match s.pendingNetworkWaiter with
      | some k => some { s with callback := .claim k n }
      | none => some { s with callback := .idle }
  | .claim k n => (s.calls[k]?).bind fun c =>
      if c.resumed then some { s with callback := .idle }
      else some { s.setCall k { c with resumed := true } with callback := .resume k n }
  | .resume k n => (s.calls[k]?).bind fun c => some { s.resumeCall k c n with callback := .idle }
  | .lost n =>
      if s.cellularNetwork = some n then some { s with callback := .clear }
      else some { s with callback := .idle }
  | .clear => some { s with cellularNetwork := none, callback := .idle }

def step [DecidableEq N] (s : CellularNetworkManager N) :
    CellularEvent N → Option (CellularNetworkManager N)
  | .awaitNetwork => some { s with calls := s.calls ++ [⟨.check, false, .active, .absent⟩] }
  | .go k => (s.calls[k]?).bind fun c => s.goStep k c
  | .timeout k => (s.calls[k]?).bind fun c => s.timeoutStep k c
  | .onCancel k => (s.calls[k]?).bind fun c =>
      if c.handler = .due then
        some { s.setCall k { c with handler := .absent } with pendingNetworkWaiter := none }
      else none
  | .onAvailable n => if s.callback = .idle then some { s with callback := .store n } else none
  | .onLost n => if s.callback = .idle then some { s with callback := .lost n } else none
  | .callback => s.callbackStep
  | .stopMonitoring => some { s with pendingNetworkWaiter := none }
  | .releaseCellularNetwork =>
      some { s with pendingNetworkWaiter := none, releasing := s.releasing + 1 }
  | .releaseNetwork =>
      if 0 < s.releasing then
        some { s with cellularNetwork := none, releasing := s.releasing - 1 }
      else none

/-! ### What one step can do -/

inductive Transition (s : CellularNetworkManager N) :
    CellularEvent N → CellularNetworkManager N → Prop
  | awaitNetwork :
      Transition s .awaitNetwork { s with calls := s.calls ++ [⟨.check, false, .active, .absent⟩] }
  | found (k c n) (hc : s.calls[k]? = some c) (hpc : c.pc = .check)
      (hn : s.cellularNetwork = some n) :
      Transition s (.go k) (s.setCall k { c with pc := .returned (some n) })
  | missing (k c) (hc : s.calls[k]? = some c) (hpc : c.pc = .check) (hn : s.cellularNetwork = none) :
      Transition s (.go k) (s.setCall k { c with pc := .install })
  | install (k c) (hc : s.calls[k]? = some c) (hpc : c.pc = .install) :
      Transition s (.go k)
        { s.setCall k { c with pc := .register } with pendingNetworkWaiter := some k }
  | cancelledBefore (k c) (hc : s.calls[k]? = some c) (hpc : c.pc = .register)
      (hcont : c.cont = .cancelled) :
      Transition s (.go k)
        { s.setCall k { c with pc := .recheck } with pendingNetworkWaiter := none }
  | register (k c) (hc : s.calls[k]? = some c) (hpc : c.pc = .register) :
      Transition s (.go k) (s.setCall k { c with pc := .recheck, handler := .registered })
  | refound (k c n) (hc : s.calls[k]? = some c) (hpc : c.pc = .recheck)
      (hn : s.cellularNetwork = some n) :
      Transition s (.go k) (s.setCall k { c with pc := .claim n })
  | stillMissing (k c) (hc : s.calls[k]? = some c) (hpc : c.pc = .recheck)
      (hn : s.cellularNetwork = none) :
      Transition s (.go k) (s.setCall k { c with pc := .suspended })
  | beaten (k c n) (hc : s.calls[k]? = some c) (hpc : c.pc = .claim n) (hres : c.resumed = true) :
      Transition s (.go k) (s.setCall k { c with pc := .suspended })
  | claim (k c n) (hc : s.calls[k]? = some c) (hpc : c.pc = .claim n) (hres : c.resumed = false) :
      Transition s (.go k) (s.setCall k { c with pc := .resume n, resumed := true })
  | resume (k c n) (hc : s.calls[k]? = some c) (hpc : c.pc = .resume n) :
      Transition s (.go k) (s.resumeCall k { c with pc := .suspended } n)
  | awake (k c n) (hc : s.calls[k]? = some c) (hpc : c.pc = .suspended) (hcont : c.cont = .resumed n) :
      Transition s (.go k) (s.setCall k { c with pc := .finish (some n) })
  | timedOut (k c) (hc : s.calls[k]? = some c) (hpc : c.pc = .suspended) (hcont : c.cont = .cancelled) :
      Transition s (.go k) (s.setCall k { c with pc := .finish none })
  | finish (k c r) (hc : s.calls[k]? = some c) (hpc : c.pc = .finish r) :
      Transition s (.go k)
        { s.setCall k { c with pc := .returned r } with pendingNetworkWaiter := none }
  | timeout (k c handler) (hc : s.calls[k]? = some c) (htimed : c.pc.timed = true)
      (hcont : c.cont = .active) :
      Transition s (.timeout k) (s.setCall k { c with cont := .cancelled, handler := handler })
  | late (k c n) (hc : s.calls[k]? = some c) (hpc : c.pc = .suspended) (hcont : c.cont = .resumed n) :
      Transition s (.timeout k) (s.setCall k { c with pc := .finish none })
  | onCancel (k c) (hc : s.calls[k]? = some c) (hdue : c.handler = .due) :
      Transition s (.onCancel k)
        { s.setCall k { c with handler := .absent } with pendingNetworkWaiter := none }
  | onAvailable (n) (hidle : s.callback = .idle) :
      Transition s (.onAvailable n) { s with callback := .store n }
  | onLost (n) (hidle : s.callback = .idle) : Transition s (.onLost n) { s with callback := .lost n }
  | store (n) (hcb : s.callback = .store n) :
      Transition s .callback { s with cellularNetwork := some n, callback := .waiter n }
  | wake (n k) (hcb : s.callback = .waiter n) (hwaiter : s.pendingNetworkWaiter = some k) :
      Transition s .callback { s with callback := .claim k n }
  | nobody (n) (hcb : s.callback = .waiter n) (hwaiter : s.pendingNetworkWaiter = none) :
      Transition s .callback { s with callback := .idle }
  | callbackBeaten (k c n) (hcb : s.callback = .claim k n) (hc : s.calls[k]? = some c)
      (hres : c.resumed = true) : Transition s .callback { s with callback := .idle }
  | callbackClaim (k c n) (hcb : s.callback = .claim k n) (hc : s.calls[k]? = some c)
      (hres : c.resumed = false) :
      Transition s .callback { s.setCall k { c with resumed := true } with callback := .resume k n }
  | callbackResume (k c n) (hcb : s.callback = .resume k n) (hc : s.calls[k]? = some c) :
      Transition s .callback { s.resumeCall k c n with callback := .idle }
  | lost (n) (hcb : s.callback = .lost n) (hn : s.cellularNetwork = some n) :
      Transition s .callback { s with callback := .clear }
  | other (n) (hcb : s.callback = .lost n) : Transition s .callback { s with callback := .idle }
  | clear (hcb : s.callback = .clear) :
      Transition s .callback { s with cellularNetwork := none, callback := .idle }
  | stopMonitoring : Transition s .stopMonitoring { s with pendingNetworkWaiter := none }
  | releaseCellularNetwork :
      Transition s .releaseCellularNetwork
        { s with pendingNetworkWaiter := none, releasing := s.releasing + 1 }
  | releaseNetwork (hreleasing : 0 < s.releasing) :
      Transition s .releaseNetwork
        { s with cellularNetwork := none, releasing := s.releasing - 1 }

theorem go_transition {k : ℕ} {c : AwaitCall N} {t : CellularNetworkManager N}
    (hc : s.calls[k]? = some c) (hstep : s.goStep k c = some t) : Transition s (.go k) t := by
  unfold goStep at hstep
  split at hstep
  case h_1 hpc =>
    split at hstep
    case h_1 n hn => exact Option.some.inj hstep ▸ .found k c n hc hpc hn
    case h_2 hn => exact Option.some.inj hstep ▸ .missing k c hc hpc hn
  case h_2 hpc => exact Option.some.inj hstep ▸ .install k c hc hpc
  case h_3 hpc =>
    split at hstep
    case h_1 hcont => exact Option.some.inj hstep ▸ .cancelledBefore k c hc hpc hcont
    case h_2 | h_3 => exact Option.some.inj hstep ▸ .register k c hc hpc
  case h_4 hpc =>
    split at hstep
    case h_1 n hn => exact Option.some.inj hstep ▸ .refound k c n hc hpc hn
    case h_2 hn => exact Option.some.inj hstep ▸ .stillMissing k c hc hpc hn
  case h_5 n hpc =>
    split at hstep
    case isTrue hres => exact Option.some.inj hstep ▸ .beaten k c n hc hpc hres
    case isFalse hres =>
      exact Option.some.inj hstep ▸ .claim k c n hc hpc (Bool.not_eq_true _ ▸ hres)
  case h_6 n hpc => exact Option.some.inj hstep ▸ .resume k c n hc hpc
  case h_7 hpc =>
    split at hstep
    case h_1 => cases hstep
    case h_2 n hcont => exact Option.some.inj hstep ▸ .awake k c n hc hpc hcont
    case h_3 hcont => exact Option.some.inj hstep ▸ .timedOut k c hc hpc hcont
  case h_8 r hpc => exact Option.some.inj hstep ▸ .finish k c r hc hpc
  case h_9 => cases hstep

theorem timeout_transition {k : ℕ} {c : AwaitCall N} {t : CellularNetworkManager N}
    (hc : s.calls[k]? = some c) (hstep : s.timeoutStep k c = some t) :
    Transition s (.timeout k) t := by
  unfold timeoutStep at hstep
  split at hstep
  case h_1 hcont =>
    split at hstep
    case isTrue htimed => exact Option.some.inj hstep ▸ .timeout k c _ hc htimed hcont
    case isFalse => cases hstep
  case h_2 n hcont hpc => exact Option.some.inj hstep ▸ .late k c n hc hpc hcont
  case h_3 => cases hstep

variable [DecidableEq N]

theorem callback_transition {t : CellularNetworkManager N} (hstep : s.callbackStep = some t) :
    Transition s .callback t := by
  unfold callbackStep at hstep
  split at hstep
  case h_1 => cases hstep
  case h_2 n hcb => exact Option.some.inj hstep ▸ .store n hcb
  case h_3 n hcb =>
    split at hstep
    case h_1 k hwaiter => exact Option.some.inj hstep ▸ .wake n k hcb hwaiter
    case h_2 hwaiter => exact Option.some.inj hstep ▸ .nobody n hcb hwaiter
  case h_4 k n hcb =>
    obtain ⟨c, hc, hstep⟩ := Option.bind_eq_some_iff.mp hstep
    split at hstep
    case isTrue hres => exact Option.some.inj hstep ▸ .callbackBeaten k c n hcb hc hres
    case isFalse hres =>
      exact Option.some.inj hstep ▸ .callbackClaim k c n hcb hc (Bool.not_eq_true _ ▸ hres)
  case h_5 k n hcb =>
    obtain ⟨c, hc, hstep⟩ := Option.bind_eq_some_iff.mp hstep
    exact Option.some.inj hstep ▸ .callbackResume k c n hcb hc
  case h_6 n hcb =>
    split at hstep
    case isTrue hn => exact Option.some.inj hstep ▸ .lost n hcb hn
    case isFalse => exact Option.some.inj hstep ▸ .other n hcb
  case h_7 hcb => exact Option.some.inj hstep ▸ .clear hcb

theorem transition {e : CellularEvent N} {t : CellularNetworkManager N} (hstep : s.step e = some t) :
    Transition s e t := by
  cases e with
  | awaitNetwork => exact Option.some.inj hstep ▸ .awaitNetwork
  | go k =>
      obtain ⟨c, hc, hstep⟩ := Option.bind_eq_some_iff.mp hstep
      exact go_transition hc hstep
  | timeout k =>
      obtain ⟨c, hc, hstep⟩ := Option.bind_eq_some_iff.mp hstep
      exact timeout_transition hc hstep
  | onCancel k =>
      obtain ⟨c, hc, hstep⟩ := Option.bind_eq_some_iff.mp hstep
      split at hstep
      · exact Option.some.inj hstep ▸ .onCancel k c hc ‹_›
      · cases hstep
  | onAvailable n =>
      rw [step] at hstep
      split at hstep
      · exact Option.some.inj hstep ▸ .onAvailable n ‹_›
      · cases hstep
  | onLost n =>
      rw [step] at hstep
      split at hstep
      · exact Option.some.inj hstep ▸ .onLost n ‹_›
      · cases hstep
  | callback => exact callback_transition hstep
  | stopMonitoring => exact Option.some.inj hstep ▸ .stopMonitoring
  | releaseCellularNetwork => exact Option.some.inj hstep ▸ .releaseCellularNetwork
  | releaseNetwork =>
      rw [step] at hstep
      split at hstep
      · exact Option.some.inj hstep ▸ .releaseNetwork ‹_›
      · cases hstep

end CellularNetworkManager

end FiveGProxy
