import FiveGProxy.Library.Steps
import Mathlib.Data.Nat.Notation

/-!
# The reported status and the cellular network

When the cellular network changes while the proxy runs, `handleNetworkChange` switches the network
for new connections at once and leaves the new status to a coroutine. The coroutines run in any
order, and that for `RUNNING` is launched only if the status is `PAUSED` already.
-/

namespace FiveGProxy

open Steps

inductive ProxyStatus
  | starting | running | paused | restarting | stopped | failed
  deriving DecidableEq

/-- What `handleNetworkChange` reads and writes, for the networks `N`. -/
structure NetworkState (N : Type*) where
  isProxyRunning : Bool
  /-- `cellularNetwork` of `CellularNetworkManager`. -/
  managed : Option N
  /-- `cellularNetwork` of `Socks5ProxyService`. -/
  cellularNetwork : Option N
  currentStatus : ProxyStatus
  /-- The launched coroutines that have not run `updateStatus`. -/
  launched : List ProxyStatus

inductive NetworkEvent (N : Type*)
  | onAvailable (network : N)
  | onLost (network : N)
  /-- The coroutine with this index runs. -/
  | coroutine (k : ℕ)

namespace NetworkState

variable {N : Type*} {st : NetworkState N}

/-- The proxy runs on the network `n`. -/
def running (managed : Option N) (n : N) : NetworkState N where
  isProxyRunning := true
  managed := managed
  cellularNetwork := some n
  currentStatus := .running
  launched := []

def dueStatus (network : Option N) : ProxyStatus :=
  match network with
  | none => .paused
  | some _ => .running

/-- Every coroutine is for the status that is due, which is reported already if there is none. -/
structure Consistent (st : NetworkState N) : Prop where
  isProxyRunning : st.isProxyRunning = true
  launched : ∀ status ∈ st.launched, status = dueStatus st.cellularNetwork
  current : st.launched = [] → st.currentStatus = dueStatus st.cellularNetwork

theorem Consistent.running (managed : Option N) (n : N) :
    (NetworkState.running managed n).Consistent :=
  ⟨rfl, nofun, fun _ => rfl⟩

theorem Consistent.launched_eq_nil (h : st.Consistent)
    (hnone : dueStatus st.cellularNetwork ∉ st.launched) : st.launched = [] := by
  apply List.eq_nil_iff_forall_not_mem.mpr
  intro status hmem
  exact hnone (h.launched status hmem ▸ hmem)

variable [DecidableEq N]

def handleNetworkChange (st : NetworkState N) (network : Option N) : NetworkState N :=
  if st.isProxyRunning = false then st
  else
    match network with
    | some n =>
        if st.cellularNetwork = some n then st
        else
          { st with
            cellularNetwork := some n
            launched :=
              if st.currentStatus = .paused then st.launched ++ [.running] else st.launched }
    | none =>
        if st.cellularNetwork = none then st
        else { st with cellularNetwork := none, launched := st.launched ++ [.paused] }

/-- The callbacks of `startMonitoring`, and the coroutines. -/
def step (st : NetworkState N) : NetworkEvent N → Option (NetworkState N)
  | .onAvailable n => some ({ st with managed := some n }.handleNetworkChange (some n))
  | .onLost n =>
      if st.managed = some n then some ({ st with managed := none }.handleNetworkChange none)
      else some st
  | .coroutine k =>
      match st.launched[k]? with
      | none => none
      | some status =>
          some { st with currentStatus := status, launched := st.launched.eraseIdx k }

/-- A callback that takes the network away or brings one back finds no coroutine that has still to
report the contrary. -/
def NoContrary (st : NetworkState N) : NetworkEvent N → Prop
  | .onAvailable _ => st.cellularNetwork = none → ProxyStatus.paused ∉ st.launched
  | .onLost n =>
      st.managed = some n → st.cellularNetwork ≠ none → ProxyStatus.running ∉ st.launched
  | .coroutine _ => True

instance : (ev : NetworkEvent N) → Decidable (st.NoContrary ev)
  | .onAvailable _ =>
      inferInstanceAs (Decidable (st.cellularNetwork = none → ProxyStatus.paused ∉ st.launched))
  | .onLost n => inferInstanceAs
      (Decidable (st.managed = some n → st.cellularNetwork ≠ none →
        ProxyStatus.running ∉ st.launched))
  | .coroutine _ => inferInstanceAs (Decidable True)

theorem Consistent.available (h : st.Consistent) {n : N}
    (hcond : st.cellularNetwork = none → ProxyStatus.paused ∉ st.launched) :
    (st.handleNetworkChange (some n)).Consistent := by
  rw [handleNetworkChange, if_neg (by simp [h.isProxyRunning])]
  by_cases hsame : st.cellularNetwork = some n
  · rw [if_pos hsame]
    exact h
  · rw [if_neg hsame]
    cases hnet : st.cellularNetwork with
    | none =>
        have hdue : dueStatus st.cellularNetwork = .paused := by
          rw [hnet]
          rfl
        have hnil : st.launched = [] := h.launched_eq_nil (by rw [hdue]; exact hcond hnet)
        have hpaused : st.currentStatus = .paused := (h.current hnil).trans hdue
        refine ⟨h.isProxyRunning, fun status hmem => ?_, fun hlaunched => ?_⟩
        · rw [if_pos hpaused, hnil] at hmem
          exact List.mem_singleton.mp hmem
        · rw [if_pos hpaused] at hlaunched
          exact absurd hlaunched (by simp)
    | some m =>
        have hdue : dueStatus st.cellularNetwork = .running := by
          rw [hnet]
          rfl
        refine ⟨h.isProxyRunning, fun status hmem => ?_, fun hlaunched => ?_⟩
        · change status ∈ (if st.currentStatus = .paused then _ else _) at hmem
          split at hmem
          · rcases List.mem_append.mp hmem with hmem | hmem
            · exact (h.launched status hmem).trans hdue
            · exact List.mem_singleton.mp hmem
          · exact (h.launched status hmem).trans hdue
        · change (if st.currentStatus = .paused then _ else _) = [] at hlaunched
          split at hlaunched
          · exact absurd hlaunched (by simp)
          · exact (h.current hlaunched).trans hdue

theorem Consistent.lost (h : st.Consistent)
    (hcond : st.cellularNetwork ≠ none → ProxyStatus.running ∉ st.launched) :
    (st.handleNetworkChange none).Consistent := by
  rw [handleNetworkChange, if_neg (by simp [h.isProxyRunning])]
  by_cases hnet : st.cellularNetwork = none
  · simp only [if_pos hnet]
    exact h
  · have hdue : dueStatus st.cellularNetwork = .running := by
      obtain ⟨m, hm⟩ := Option.ne_none_iff_exists'.mp hnet
      rw [hm]
      rfl
    have hnil : st.launched = [] := h.launched_eq_nil (by rw [hdue]; exact hcond hnet)
    simp only [if_neg hnet]
    refine ⟨h.isProxyRunning, fun status hmem => ?_, fun hlaunched => ?_⟩
    · rw [hnil] at hmem
      exact List.mem_singleton.mp hmem
    · exact absurd hlaunched (by simp)

theorem Consistent.step (h : st.Consistent) {ev : NetworkEvent N} (hcond : st.NoContrary ev)
    {st' : NetworkState N} (hstep : st.step ev = some st') : st'.Consistent := by
  cases ev with
  | onAvailable n =>
      obtain rfl := Option.some.inj hstep
      exact (show { st with managed := some n }.Consistent from { h with }).available hcond
  | onLost n =>
      simp only [NetworkState.step] at hstep
      split at hstep
      · obtain rfl := Option.some.inj hstep
        exact (show { st with managed := none }.Consistent from { h with }).lost (hcond ‹_›)
      · obtain rfl := Option.some.inj hstep
        exact h
  | coroutine k =>
      simp only [NetworkState.step] at hstep
      split at hstep
      · cases hstep
      · obtain rfl := Option.some.inj hstep
        refine ⟨h.isProxyRunning, fun status hmem => ?_, fun _ => ?_⟩
        · exact h.launched status (List.mem_of_mem_eraseIdx hmem)
        · exact h.launched _ (List.mem_of_getElem? ‹_›)

/-! ### What goes wrong otherwise -/

/-- The coroutines can run in such an order that a given one of them is the last. -/
theorem exists_run_last {status : ProxyStatus} (hmem : status ∈ st.launched) :
    ∃ ks : List ℕ, run step st (ks.map .coroutine) =
      some { st with currentStatus := status, launched := [] } := by
  obtain ⟨before, after, hsplit⟩ := List.append_of_mem hmem
  induction before generalizing st with
  | cons first before ih =>
      obtain ⟨ks, hks⟩ := @ih { st with currentStatus := first, launched := before ++ status :: after }
        (by simp) rfl
      refine ⟨0 :: ks, run_cons_eq_some.mpr ⟨_, ?_, hks⟩⟩
      simp [step, hsplit]
  | nil =>
      induction after generalizing st with
      | nil => exact ⟨[0], by simp [run_cons, step, hsplit]⟩
      | cons next after ih =>
          obtain ⟨ks, hks⟩ := @ih { st with currentStatus := next, launched := status :: after }
            (by simp) rfl
          refine ⟨1 :: ks, run_cons_eq_some.mpr ⟨_, ?_, hks⟩⟩
          simp [step, hsplit]

/-- After a callback that overtakes a contrary coroutine, the coroutines alone can end in a wrong
status. -/
theorem Consistent.overtaken (h : st.Consistent) {ev : NetworkEvent N} (hcond : ¬st.NoContrary ev)
    {st' : NetworkState N} (hstep : st.step ev = some st') : ∃ (ks : List ℕ) (st'' : NetworkState N),
      run NetworkState.step st' (ks.map .coroutine) = some st'' ∧ st''.launched = [] ∧
        st''.cellularNetwork = st'.cellularNetwork ∧
        st''.currentStatus ≠ dueStatus st'.cellularNetwork := by
  suffices hcontrary : ∃ status ∈ st'.launched, status ≠ dueStatus st'.cellularNetwork by
    obtain ⟨status, hmem, hne⟩ := hcontrary
    obtain ⟨ks, hks⟩ := exists_run_last hmem
    exact ⟨ks, _, hks, rfl, rfl, hne⟩
  cases ev with
  | onAvailable n =>
      obtain ⟨hnet, hmem⟩ : st.cellularNetwork = none ∧ ProxyStatus.paused ∈ st.launched := by
        simpa [NoContrary] using hcond
      obtain rfl := Option.some.inj hstep
      refine ⟨.paused, ?_, ?_⟩
      · simp only [handleNetworkChange, h.isProxyRunning, hnet, reduceCtorEq, if_false]
        split
        · exact List.mem_append_left _ hmem
        · exact hmem
      · simp [handleNetworkChange, h.isProxyRunning, hnet, dueStatus]
  | onLost n =>
      obtain ⟨hmanaged, hnet, hmem⟩ : st.managed = some n ∧ st.cellularNetwork ≠ none ∧
          ProxyStatus.running ∈ st.launched := by
        simpa [NoContrary] using hcond
      rw [NetworkState.step, if_pos hmanaged] at hstep
      obtain rfl := Option.some.inj hstep
      refine ⟨.running, ?_, ?_⟩
      · simp [handleNetworkChange, h.isProxyRunning, hnet, hmem]
      · simp [handleNetworkChange, h.isProxyRunning, hnet, dueStatus]
  | coroutine k => exact absurd trivial hcond

end NetworkState

open NetworkState

/-- When no callback overtakes a coroutine that it contradicts, the status is right whenever all
coroutines have run. -/
theorem status_follows_network {N : Type*} [DecidableEq N] {managed : Option N} {n : N}
    {evs : List (NetworkEvent N)} {st : NetworkState N}
    (hcond : Meets step NoContrary (running managed n) evs)
    (hrun : run step (running managed n) evs = some st) (hdone : st.launched = []) :
    (st.currentStatus = .paused ↔ st.cellularNetwork = none) ∧
      (st.cellularNetwork ≠ none → st.currentStatus = .running) := by
  have hinv : st.Consistent := run_invariant_of_meets
    (fun _ _ _ h hcond hstep => h.step hcond hstep) (Consistent.running managed n) hcond hrun
  rw [hinv.current hdone]
  cases st.cellularNetwork with
  | none => simp [dueStatus]
  | some m => simp [dueStatus]

/-- The network is lost and another one comes, and each callback finds the coroutines done. -/
theorem status_follows_network_handover : ∃ st : NetworkState ℕ,
    run step (running (some 0) 0) [.onLost 0, .coroutine 0, .onAvailable 1, .coroutine 0] =
        some st ∧
      (st.currentStatus = .paused ↔ st.cellularNetwork = none) ∧
      (st.cellularNetwork ≠ none → st.currentStatus = .running) :=
  have hcond : Meets step NoContrary (running (some 0) 0)
      [.onLost 0, .coroutine 0, .onAvailable 1, .coroutine 0] := by decide
  ⟨_, rfl, status_follows_network hcond rfl rfl⟩

/-- A new network that comes before the coroutine of the loss has run leaves `PAUSED` behind; a loss
that comes before the coroutine of the new network has run can leave `RUNNING`. -/
theorem status_overtaken :
    (∃ st : NetworkState ℕ,
        run step (running (some 0) 0) [.onLost 0, .onAvailable 1, .coroutine 0] = some st ∧
          st.launched = [] ∧ st.cellularNetwork = some 1 ∧ st.currentStatus = .paused) ∧
      ∃ st : NetworkState ℕ,
        run step (running (some 0) 0) [.onLost 0, .coroutine 0, .onAvailable 1, .onLost 1,
            .coroutine 1, .coroutine 0] = some st ∧
          st.launched = [] ∧ st.cellularNetwork = none ∧ st.currentStatus = .running :=
  ⟨⟨_, rfl, rfl, rfl, rfl⟩, ⟨_, rfl, rfl, rfl, rfl⟩⟩

end FiveGProxy
