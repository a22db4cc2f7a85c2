import FiveGProxy.Network.Cellular

/-!
# No wake-up of `awaitNetwork` is lost

A call first looks at the network, then installs its waiter, then looks again. So a network that
comes after the first look either finds the waiter or is found by the second look. There is one
place for a waiter only: a call whose waiter another thread has replaced or taken out is not woken.
-/

namespace FiveGProxy

open Steps

variable {N : Type*}

/-- The thread of the callbacks has not looked for a waiter yet, or is about to resume the call. -/
def CallbackPc.Wakes (k : ℕ) : CallbackPc N → Prop
  | waiter _ => True
  | claim j _ | resume j _ => j = k
  | idle | store _ | lost _ | clear => False

namespace CellularNetworkManager

variable {s t : CellularNetworkManager N} {d d' : List ℕ} {k : ℕ} {c : AwaitCall N}

/-- What holds of the call `k`, where `d` are the calls whose waiter has left its place. -/
structure Attentive (s : CellularNetworkManager N) (d : List ℕ) (k : ℕ) (c : AwaitCall N) :
    Prop where
  installed : c.pc.installed = true → c.cont = .active → k ∉ d → s.pendingNetworkWaiter = some k
  /-- Whoever has won the flag still has to resume the continuation. -/
  claimed : c.cont = .active → c.resumed = true →
    (∃ n, c.pc = .resume n) ∨ ∃ n, s.callback = .resume k n
  asleep : c.pc = .suspended → c.cont = .active → k ∉ d → s.cellularNetwork ≠ none →
    s.callback.Wakes k

def Awaiting (s : CellularNetworkManager N) (d : List ℕ) : Prop :=
  ∀ k c, s.calls[k]? = some c → Attentive s d k c

theorem Attentive.of_inactive (h : c.cont ≠ .active) : Attentive s d k c where
  installed _ hcont := absurd hcont h
  claimed hcont := absurd hcont h
  asleep _ hcont := absurd hcont h

theorem Attentive.keep {handler : CancelHandler} (h : Attentive s d k c) (hd : k ∉ d' → k ∉ d)
    (hkept : k ∉ d' → s.pendingNetworkWaiter = some k → t.pendingNetworkWaiter = some k)
    (hresume : ∀ n, s.callback = .resume k n → t.callback = .resume k n)
    (hwakes : c.pc = .suspended → c.cont = .active → k ∉ d →
      (s.cellularNetwork ≠ none → s.callback.Wakes k) → t.cellularNetwork ≠ none →
        t.callback.Wakes k) : Attentive t d' k { c with handler := handler } where
  installed hpc hcont hk := hkept hk (h.installed hpc hcont (hd hk))
  claimed hcont hres := (h.claimed hcont hres).imp_right (Exists.imp hresume)
  asleep hpc hcont hk := hwakes hpc hcont (hd hk) (h.asleep hpc hcont (hd hk))

/-- The call goes on to a place behind `install` at which it does not sleep. -/
theorem Attentive.goto {pc : AwaitPc N} {handler : CancelHandler} (h : Attentive s d k c)
    (hd : k ∉ d' → k ∉ d)
    (hkept : k ∉ d' → s.pendingNetworkWaiter = some k → t.pendingNetworkWaiter = some k)
    (hcb : t.callback = s.callback) (hbefore : pc.installed = true → c.pc.installed = true)
    (hpc : ∀ n, c.pc ≠ .resume n) (hawake : pc ≠ .suspended) :
    Attentive t d' k { c with pc := pc, handler := handler } where
  installed hin hcont hk := hkept hk (h.installed (hbefore hin) hcont (hd hk))
  claimed hcont hres := by
    rw [hcb]
    exact Or.inr ((h.claimed hcont hres).resolve_left (not_exists.mpr hpc))
  asleep hsuspended := absurd hsuspended hawake

/-- One call has taken a step, and the thread of the callbacks has not. -/
theorem Awaiting.go {j : ℕ} {c' : AwaitCall N} (h : Awaiting s d) (hd : ∀ k, k ∉ d' → k ∉ d)
    (hkept : ∀ k, k ∉ d' → s.pendingNetworkWaiter = some k → t.pendingNetworkWaiter = some k)
    (hc : s.calls[j]? = some c) (hcalls : t.calls = (s.setCall j c').calls)
    (hnetwork : t.cellularNetwork = s.cellularNetwork) (hcb : t.callback = s.callback)
    (hown : Attentive t d' j c') : Awaiting t d' := by
  intro k c₁ hc₁
  rw [hcalls] at hc₁
  rcases setCall_calls hc hc₁ with ⟨rfl, rfl⟩ | ⟨-, hc₁⟩
  · exact hown
  · refine (h k c₁ hc₁).keep (hd k) (hkept k) (fun n hn => hcb.trans hn) fun _ _ _ hwakes => ?_
    rw [hnetwork, hcb]
    exact hwakes

theorem Awaiting.keep (h : Awaiting s d) (hd : ∀ k, k ∉ d' → k ∉ d)
    (hkept : ∀ k, k ∉ d' → s.pendingNetworkWaiter = some k → t.pendingNetworkWaiter = some k)
    (hcalls : t.calls = s.calls)
    (hresume : ∀ k n, s.callback = .resume k n → t.callback = .resume k n)
    (hwakes : ∀ k c, s.calls[k]? = some c → c.pc = .suspended → c.cont = .active → k ∉ d →
      (s.cellularNetwork ≠ none → s.callback.Wakes k) → t.cellularNetwork ≠ none →
        t.callback.Wakes k) : Awaiting t d' := by
  intro k c hc
  rw [hcalls] at hc
  exact (h k c hc).keep (hd k) (hkept k) (hresume k) (hwakes k c hc)

theorem Awaiting.init : Awaiting (.init : CellularNetworkManager N) [] := by
  intro k c hc
  cases hc

variable [DecidableEq N]

def recordDisplaced (s : CellularNetworkManager N) (e : CellularEvent N) (d : List ℕ) : List ℕ :=
  match s.pendingNetworkWaiter, s.step e with
  | some k, some t => if t.pendingNetworkWaiter = some k then d else k :: d
  | _, _ => d

theorem notMem_of_recordDisplaced {e : CellularEvent N} (h : k ∉ s.recordDisplaced e d) : k ∉ d := by
  unfold recordDisplaced at h
  split at h
  · split at h
    · exact h
    · exact fun hk => h (List.mem_cons_of_mem _ hk)
  · exact h

theorem waiter_kept {e : CellularEvent N} (hstep : s.step e = some t)
    (h : k ∉ s.recordDisplaced e d) (hwaiter : s.pendingNetworkWaiter = some k) :
    t.pendingNetworkWaiter = some k := by
  rw [recordDisplaced, hwaiter, hstep] at h
  dsimp only at h
  split at h
  · assumption
  · exact absurd List.mem_cons_self h

theorem Awaiting.step {e : CellularEvent N} (h : Awaiting s d) (hstep : s.step e = some t) :
    Awaiting t (s.recordDisplaced e d) := by
  have hd : ∀ k, k ∉ s.recordDisplaced e d → k ∉ d := fun _ => notMem_of_recordDisplaced
  have hkept : ∀ k, k ∉ s.recordDisplaced e d → s.pendingNetworkWaiter = some k →
      t.pendingNetworkWaiter = some k := fun _ => waiter_kept hstep
  -- a call that sleeps while there is a network has the callback on its side
  have hidle : ∀ {cb : CallbackPc N}, s.callback = cb → (∀ k, ¬cb.Wakes k) →
      t.cellularNetwork = s.cellularNetwork → ∀ k, (s.cellularNetwork ≠ none → s.callback.Wakes k) →
        t.cellularNetwork ≠ none → t.callback.Wakes k := by
    intro cb hcb hno hnetwork k hwakes hne
    rw [hnetwork] at hne
    exact absurd (hcb ▸ hwakes hne) (hno k)
  cases transition hstep with
  | awaitNetwork =>
      intro k c hc
      by_cases hlt : k < s.calls.length
      · rw [List.getElem?_append_left hlt] at hc
        exact (h k c hc).keep (hd k) (hkept k) (fun _ hn => hn) fun _ _ _ hwakes => hwakes
      · rw [List.getElem?_append_right (Nat.le_of_not_lt hlt)] at hc
        obtain rfl := List.mem_singleton.mp (List.mem_of_getElem? hc)
        exact ⟨fun hin => (by cases hin), fun _ hres => (by cases hres), fun hpc => (by cases hpc)⟩
  | found j c n hc hpc hn | missing j c hc hpc hn =>
      exact h.go hd hkept hc rfl rfl rfl ((h j c hc).goto (hd j) (hkept j) rfl
        (by simp [AwaitPc.installed]) (by simp [hpc]) (by simp))
  | install j c hc hpc =>
      refine h.go hd hkept hc rfl rfl rfl ⟨fun _ _ _ => rfl, fun hcont hres => ?_,
        fun hsleep => (by cases hsleep)⟩
      exact Or.inr (((h j c hc).claimed hcont hres).resolve_left (by simp [hpc]))
  | cancelledBefore j c hc hpc hcont =>
      exact h.go hd hkept hc rfl rfl rfl (.of_inactive (by simp [hcont]))
  | register j c hc hpc | refound j c n hc hpc hn =>
      exact h.go hd hkept hc rfl rfl rfl ((h j c hc).goto (hd j) (hkept j) rfl
        (by simp [hpc, AwaitPc.installed]) (by simp [hpc]) (by simp))
  | stillMissing j c hc hpc hn =>
      refine h.go hd hkept hc rfl rfl rfl ⟨fun _ hcont hj => ?_, fun hcont hres => ?_,
        fun _ _ _ hne => ?_⟩
      · exact hkept j hj ((h j c hc).installed (by simp [hpc, AwaitPc.installed]) hcont (hd j hj))
      · exact Or.inr (((h j c hc).claimed hcont hres).resolve_left (by simp [hpc]))
      · exact absurd hn hne
  | beaten j c n hc hpc hres =>
      have hcb : c.cont = .active → ∃ m, s.callback = .resume j m := fun hcont =>
        ((h j c hc).claimed hcont hres).resolve_left (by simp [hpc])
      refine h.go hd hkept hc rfl rfl rfl ⟨fun _ hcont hj => ?_, fun hcont _ => Or.inr (hcb hcont),
        fun _ hcont _ _ => ?_⟩
      · exact hkept j hj ((h j c hc).installed (by simp [hpc, AwaitPc.installed]) hcont (hd j hj))
      · obtain ⟨m, hm⟩ := hcb hcont
        rw [show (s.setCall j { c with pc := .suspended }).callback = s.callback from rfl, hm]
        rfl
  | claim j c n hc hpc hres =>
      refine h.go hd hkept hc rfl rfl rfl ⟨fun _ hcont hj => ?_, fun _ _ => Or.inl ⟨n, rfl⟩,
        fun hsleep => (by cases hsleep)⟩
      exact hkept j hj ((h j c hc).installed (by simp [hpc, AwaitPc.installed]) hcont (hd j hj))
  | resume j c n hc hpc =>
      refine h.go hd hkept hc rfl rfl rfl (.of_inactive ?_)
      cases c.cont <;> simp [Continuation.resume]
  | awake j c n hc hpc hcont | timedOut j c hc hpc hcont | late j c n hc hpc hcont =>
      exact h.go hd hkept hc rfl rfl rfl (.of_inactive (by simp [hcont]))
  | finish j c r hc hpc =>
      refine h.go hd hkept hc rfl rfl rfl ⟨fun hin => (by cases hin), fun hcont hres => ?_,
        fun hsleep => (by cases hsleep)⟩
      exact Or.inr (((h j c hc).claimed hcont hres).resolve_left (by simp [hpc]))
  | timeout j c handler hc htimed hcont =>
      exact h.go hd hkept hc rfl rfl rfl (.of_inactive (by simp))
  | onCancel j c hc hdue =>
      exact h.go hd hkept hc rfl rfl rfl ((h j c hc).keep (hd j) (hkept j) (fun _ hn => hn)
        fun _ _ _ hwakes => hwakes)
  | onAvailable n hcb | onLost n hcb =>
      exact h.keep hd hkept rfl (fun k m hm => by simp [hcb] at hm) fun k _ _ _ _ _ =>
        hidle hcb (fun _ hw => hw) rfl k
  | store n hcb =>
      exact h.keep hd hkept rfl (fun k m hm => by simp [hcb] at hm) fun _ _ _ _ _ _ _ _ => trivial
  | wake n j hcb hwaiter =>
      refine h.keep hd hkept rfl (fun k m hm => by simp [hcb] at hm) fun k c hc hpc hcont hk _ _ => ?_
      have hin := (h k c hc).installed (by simp [hpc, AwaitPc.installed]) hcont hk
      exact Option.some.inj (hwaiter.symm.trans hin)
  | nobody n hcb hwaiter =>
      refine h.keep hd hkept rfl (fun k m hm => by simp [hcb] at hm) fun k c hc hpc hcont hk _ _ => ?_
      have hin := (h k c hc).installed (by simp [hpc, AwaitPc.installed]) hcont hk
      cases hwaiter.symm.trans hin
  | callbackBeaten j c n hcb hc hres =>
      refine h.keep hd hkept rfl (fun k m hm => by simp [hcb] at hm)
        fun k c₁ hc₁ hpc hcont hk hwakes hne => ?_
      -- the call for which the flag has been lost is not the one that sleeps
      obtain rfl : j = k := by simpa [hcb, CallbackPc.Wakes] using hwakes hne
      obtain rfl := Option.some.inj (hc.symm.trans hc₁)
      rcases (h j c hc).claimed hcont hres with ⟨m, hm⟩ | ⟨m, hm⟩
      · simp [hpc] at hm
      · simp [hcb] at hm
  | callbackClaim j c n hcb hc hres =>
      intro k c₁ hc₁
      rcases setCall_calls hc hc₁ with ⟨rfl, rfl⟩ | ⟨hne, hc₁⟩
      · exact ⟨fun hin hcont hk => hkept k hk ((h k c hc).installed hin hcont (hd k hk)),
          fun _ _ => Or.inr ⟨n, rfl⟩, fun _ _ _ _ => rfl⟩
      · refine (h k c₁ hc₁).keep (hd k) (hkept k) (fun m hm => by simp [hcb] at hm)
          fun _ _ _ hwakes hnetwork => ?_
        exact absurd (by simpa [hcb, CallbackPc.Wakes] using hwakes hnetwork) hne.symm
  | callbackResume j c n hcb hc =>
      intro k c₁ hc₁
      rcases setCall_calls hc hc₁ with ⟨rfl, rfl⟩ | ⟨hne, hc₁⟩
      · refine .of_inactive ?_
        cases c.cont <;> simp [Continuation.resume]
      · refine (h k c₁ hc₁).keep (hd k) (hkept k) (fun m hm => ?_) fun _ _ _ hwakes hnetwork => ?_
        · exact absurd (by simpa [hcb] using hm : j = k ∧ n = m).1 hne.symm
        · exact absurd (by simpa [hcb, CallbackPc.Wakes] using hwakes hnetwork) hne.symm
  | lost n hcb hn | other n hcb =>
      exact h.keep hd hkept rfl (fun k m hm => by simp [hcb] at hm) fun k _ _ _ _ _ =>
        hidle hcb (fun _ hw => hw) rfl k
  | clear hcb =>
      exact h.keep hd hkept rfl (fun k m hm => by simp [hcb] at hm) fun _ _ _ _ _ _ _ hne =>
        absurd rfl hne
  | stopMonitoring | releaseCellularNetwork =>
      exact h.keep hd hkept rfl (fun _ _ hm => hm) fun _ _ _ _ _ _ hwakes => hwakes
  | releaseNetwork hreleasing =>
      exact h.keep hd hkept rfl (fun _ _ hm => hm) fun _ _ _ _ _ _ _ hne => absurd rfl hne

end CellularNetworkManager

open CellularNetworkManager

variable [DecidableEq N]

/-- In every run, when the thread of the callbacks has nothing to do, a call sleeps only while there
is no network, unless its waiter has been taken out of its place. -/
theorem no_wakeup_lost {evs : List (CellularEvent N)} {st : CellularNetworkManager N}
    {displaced : List ℕ}
    (hrun : run (record CellularNetworkManager.step recordDisplaced) (.init, []) evs =
      some (st, displaced)) {k : ℕ} {c : AwaitCall N} (hc : st.calls[k]? = some c)
    (hsuspended : c.pc = .suspended) (hactive : c.cont = .active) (hplace : k ∉ displaced)
    (hidle : st.callback = .idle) : st.cellularNetwork = none := by
  have hinv : Awaiting st displaced :=
    record_invariant (fun _ _ _ _ h hstep => h.step hstep) Awaiting.init hrun
  by_contra hne
  have hwakes := (hinv k c hc).asleep hsuspended hactive hplace hne
  rw [hidle] at hwakes
  exact hwakes

/-- The network `7` comes and goes before a call looks for it. -/
def sleepAfterLoss : List (CellularEvent ℕ) :=
  List.flatten [[.onAvailable 7], List.replicate 2 .callback, [.onLost 7],
    List.replicate 2 .callback, [.awaitNetwork], List.replicate 4 (.go 0)]

theorem no_wakeup_lost_sleepAfterLoss : ∃ st displaced c,
    run (record CellularNetworkManager.step recordDisplaced) (.init, []) sleepAfterLoss =
      some (st, displaced) ∧ st.calls[0]? = some c ∧ c.pc = .suspended ∧ c.cont = .active ∧
        0 ∉ displaced ∧ st.callback = .idle ∧ st.cellularNetwork = none := by
  obtain ⟨⟨st, displaced⟩, hrun, hcall, hplace, hidle⟩ := exists_run_of_any
    (P := fun p => p.1.calls[0]? = some ⟨.suspended, false, .active, .registered⟩ ∧ 0 ∉ p.2 ∧
      p.1.callback = .idle)
    (by decide : (run (record CellularNetworkManager.step recordDisplaced) (.init, [])
      sleepAfterLoss).any _ = true)
  exact ⟨st, displaced, _, hrun, hcall, rfl, rfl, hplace, hidle,
    no_wakeup_lost hrun hcall rfl rfl hplace hidle⟩

/-- Two calls wait at once; the network `7` wakes the second, and the first sleeps on. -/
example : ((run CellularNetworkManager.step .init (List.flatten [[.awaitNetwork, .awaitNetwork],
    List.replicate 4 (.go 0), List.replicate 4 (.go 1), [.onAvailable 7],
    List.replicate 4 .callback])).map fun st => (st.cellularNetwork,
      st.calls.map fun c => (c.pc, c.cont), st.callback)) =
    some (some 7, [(.suspended, .active), (.suspended, .resumed 7)], .idle) := by decide

end FiveGProxy
