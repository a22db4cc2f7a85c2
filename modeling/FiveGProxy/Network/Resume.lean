import FiveGProxy.Network.Cellular

/-!
# What `awaitNetwork` returns

The flag `resumed` makes the waiter and the second look of a call compete: one of them resumes the
continuation, the other does nothing. What it is resumed with is the network of the moment, because
the callbacks come one after the other, unless `releaseCellularNetwork` takes the network away while
`onAvailable` is under way.
-/

namespace FiveGProxy

open Steps

variable {N : Type*}

def AwaitPc.resumes : AwaitPc N → Bool
  | resume _ => true
  | check | install | register | recheck | claim _ | suspended | finish _ | returned _ => false

def CallbackPc.resumes (k : ℕ) : CallbackPc N → Bool
  | resume j _ => j = k
  | idle | store _ | waiter _ | claim _ _ | lost _ | clear => false

/-- The network that `onAvailable` has stored and is handing on. -/
def CallbackPc.carried : CallbackPc N → Option N
  | waiter n | claim _ n | resume _ n => some n
  | idle | store _ | lost _ | clear => none

def AwaitPc.network : AwaitPc N → Option N
  | claim n | resume n => some n
  | finish r | returned r => r
  | check | install | register | recheck | suspended => none

def AwaitPc.isReturned : AwaitPc N → Bool
  | returned _ => true
  | check | install | register | recheck | claim _ | resume _ | suspended | finish _ => false

namespace CellularNetworkManager

variable {s t : CellularNetworkManager N} {k : ℕ} {c : AwaitCall N}

/-! ### At most one resumption -/

/-- The resumptions of a call that have been made or are under way are covered by its flag. -/
def Covered (cb : CallbackPc N) (k : ℕ) (c : AwaitCall N) : Prop :=
  c.cont.isResumed.toNat + c.pc.resumes.toNat + (cb.resumes k).toNat ≤ c.resumed.toNat

structure ResumedOnce (s : CellularNetworkManager N) : Prop where
  calls : ∀ k c, s.calls[k]? = some c → Covered s.callback k c
  known : ∀ k, s.callback.resumes k = true → k < s.calls.length
  alreadyResumed : s.alreadyResumed = false

theorem ResumedOnce.init : ResumedOnce (.init : CellularNetworkManager N) where
  calls k c hc := by cases hc
  known k hk := by cases hk
  alreadyResumed := rfl

theorem ResumedOnce.setCall {j : ℕ} {c₀ : AwaitCall N} (h : ResumedOnce s)
    (hc : s.calls[j]? = some c₀) (hcalls : t.calls = (s.setCall j c).calls)
    (hcb : ∀ k, k ≠ j → t.callback.resumes k = s.callback.resumes k)
    (hown : Covered t.callback j c) (hflag : t.alreadyResumed = false) : ResumedOnce t where
  calls := by
    intro k c₁ hc₁
    rw [hcalls] at hc₁
    rcases setCall_calls hc hc₁ with ⟨rfl, rfl⟩ | ⟨hne, hc₁⟩
    · exact hown
    · rw [Covered, hcb k hne]
      exact h.calls k c₁ hc₁
  known := by
    intro k hk
    rw [hcalls, CellularNetworkManager.setCall, List.length_set]
    by_cases hkj : k = j
    · exact hkj ▸ (List.getElem?_eq_some_iff.mp hc).1
    · exact h.known k (hcb k hkj ▸ hk)
  alreadyResumed := hflag

theorem ResumedOnce.keep (h : ResumedOnce s) (hcalls : t.calls = s.calls)
    (hcb : ∀ k, t.callback.resumes k = s.callback.resumes k)
    (hflag : t.alreadyResumed = s.alreadyResumed) : ResumedOnce t where
  calls := by
    intro k c hc
    rw [hcalls] at hc
    rw [Covered, hcb]
    exact h.calls k c hc
  known k hk := hcalls ▸ h.known k (hcb k ▸ hk)
  alreadyResumed := hflag.trans h.alreadyResumed

theorem Covered.not_resumed {cb : CallbackPc N} (h : Covered cb k c)
    (hresumes : c.pc.resumes = true ∨ cb.resumes k = true) : c.cont.isResumed = false := by
  have hle := Bool.toNat_le c.resumed
  unfold Covered at h
  cases hcont : c.cont.isResumed with
  | false => rfl
  | true =>
      rcases hresumes with hr | hr <;> rw [hcont, hr] at h <;> simp only [Bool.toNat_true] at h <;>
        omega

theorem Covered.resume {cb cb' : CallbackPc N} {pc : AwaitPc N} {n : N} (h : Covered cb k c)
    (hless : pc.resumes.toNat + (cb'.resumes k).toNat + 1 =
      c.pc.resumes.toNat + (cb.resumes k).toNat) :
    Covered cb' k { c with pc := pc, cont := c.cont.resume n } := by
  have hone : (c.cont.resume n).isResumed.toNat ≤ c.cont.isResumed.toNat + 1 :=
    Nat.le_trans (Bool.toNat_le _) (Nat.le_add_left 1 _)
  simp only [Covered] at h ⊢
  omega

theorem ResumedOnce.step [DecidableEq N] {e : CellularEvent N} (h : ResumedOnce s)
    (hstep : s.step e = some t) : ResumedOnce t := by
  have hgoto : ∀ {j : ℕ} {c : AwaitCall N} {pc : AwaitPc N} {handler : CancelHandler},
      s.calls[j]? = some c → t.calls = (s.setCall j { c with pc := pc, handler := handler }).calls →
        t.callback = s.callback → pc.resumes = false → t.alreadyResumed = s.alreadyResumed →
          ResumedOnce t := by
    intro j c pc handler hc hcalls hcb hpc hflag
    refine h.setCall hc hcalls (fun k _ => by rw [hcb]) ?_ (hflag.trans h.alreadyResumed)
    have hcov := h.calls j c hc
    simp only [Covered, hcb, hpc, Bool.toNat_false] at hcov ⊢
    omega
  cases transition hstep with
  | awaitNetwork =>
      refine ⟨fun k c hc => ?_, fun k hk => ?_, h.alreadyResumed⟩
      swap
      · rw [List.length_append]
        exact Nat.lt_add_right _ (h.known k hk)
      by_cases hlt : k < s.calls.length
      · rw [List.getElem?_append_left hlt] at hc
        exact h.calls k c hc
      · rw [List.getElem?_append_right (Nat.le_of_not_lt hlt)] at hc
        obtain rfl := List.mem_singleton.mp (List.mem_of_getElem? hc)
        have hcb : s.callback.resumes k = false := by
          by_contra htrue
          exact hlt (h.known k (Bool.not_eq_false _ ▸ htrue))
        rw [Covered, hcb]
        exact Nat.le_refl 0
  | found j c n hc hpc hn | missing j c hc hpc hn | install j c hc hpc
  | cancelledBefore j c hc hpc hcont | register j c hc hpc | refound j c n hc hpc hn
  | stillMissing j c hc hpc hn | beaten j c n hc hpc hres | awake j c n hc hpc hcont
  | timedOut j c hc hpc hcont | finish j c r hc hpc | late j c n hc hpc hcont =>
      exact hgoto hc rfl rfl rfl rfl
  | onCancel j c hc hdue =>
      exact h.setCall hc rfl (fun _ _ => rfl) (h.calls j c hc) h.alreadyResumed
  | claim j c n hc hpc hres =>
      refine h.setCall hc rfl (fun _ _ => rfl) ?_ h.alreadyResumed
      have hcov := h.calls j c hc
      simp only [Covered, hres, Bool.toNat_false] at hcov
      simp only [Covered, AwaitPc.resumes, Bool.toNat_true]
      show c.cont.isResumed.toNat + 1 + (s.callback.resumes j).toNat ≤ 1
      omega
  | resume j c n hc hpc =>
      have hcov := h.calls j c hc
      refine h.setCall hc rfl (fun _ _ => rfl) (hcov.resume ?_) ?_
      · rw [hpc, AwaitPc.resumes, AwaitPc.resumes, Bool.toNat_false, Bool.toNat_true, Nat.zero_add]
        exact Nat.add_comm _ 1
      simp [resumeCall, h.alreadyResumed, hcov.not_resumed (Or.inl (by rw [hpc]; rfl))]
  | timeout j c handler hc htimed hcont =>
      refine h.setCall hc rfl (fun _ _ => rfl) ?_ h.alreadyResumed
      have hcov := h.calls j c hc
      rwa [Covered, hcont] at hcov
  | onAvailable n hcb | onLost n hcb | store n hcb | wake n j hcb hwaiter | nobody n hcb hwaiter
  | callbackBeaten j c n hcb hc hres | lost n hcb hn | other n hcb | clear hcb =>
      exact h.keep rfl (fun k => by rw [hcb]; rfl) rfl
  | callbackClaim j c n hcb hc hres =>
      refine h.setCall hc rfl (fun k hk => ?_) ?_ h.alreadyResumed
      · rw [hcb]
        exact decide_eq_false hk.symm
      · have hcov := h.calls j c hc
        simp only [Covered, hres, hcb, CallbackPc.resumes, Bool.toNat_false] at hcov
        simp only [Covered, CallbackPc.resumes, decide_true, Bool.toNat_true]
        omega
  | callbackResume j c n hcb hc =>
      have hcov := h.calls j c hc
      refine h.setCall hc rfl (fun k hk => ?_) (hcov.resume ?_) ?_
      · rw [hcb]
        exact (decide_eq_false hk.symm).symm
      · rw [hcb]
        simp [CallbackPc.resumes]
      · have hfirst := hcov.not_resumed (Or.inr (by simp [hcb, CallbackPc.resumes]))
        simp [resumeCall, h.alreadyResumed, hfirst]
  | stopMonitoring | releaseCellularNetwork | releaseNetwork => exact h.keep rfl (fun _ => rfl) rfl

/-! ### A network of the time of the call -/

def recordSeen (s : CellularNetworkManager N) (_ : CellularEvent N) (seen : List (ℕ × N)) :
    List (ℕ × N) :=
  match s.cellularNetwork with
  | some n => ((List.range s.calls.length).filter fun k =>
      (s.calls[k]?).any fun c => !c.pc.isReturned).map (fun k => (k, n)) ++ seen
  | none => seen

variable {seen : List (ℕ × N)}

theorem mem_recordSeen {e : CellularEvent N} {n : N} (hc : s.calls[k]? = some c)
    (hopen : c.pc.isReturned = false) (hn : s.cellularNetwork = some n) :
    (k, n) ∈ s.recordSeen e seen := by
  have hlt : k < s.calls.length := (List.getElem?_eq_some_iff.mp hc).1
  rw [recordSeen, hn]
  refine List.mem_append_left _ (List.mem_map.mpr ⟨k, List.mem_filter.mpr ⟨?_, ?_⟩, rfl⟩)
  · exact List.mem_range.mpr hlt
  · simp [hc, hopen]

theorem subset_recordSeen (e : CellularEvent N) : seen ⊆ s.recordSeen e seen := by
  intro x hx
  unfold recordSeen
  split
  · exact List.mem_append_right _ hx
  · exact hx

/-- The networks that the call `k` holds were there during the call. -/
structure Dated (seen : List (ℕ × N)) (k : ℕ) (c : AwaitCall N) : Prop where
  inHand : ∀ n, c.pc.network = some n → (k, n) ∈ seen
  delivered : ∀ n, c.pc.isReturned = false → c.cont = .resumed n → (k, n) ∈ seen

structure Current (s : CellularNetworkManager N) (seen : List (ℕ × N)) : Prop where
  carried : ∀ n, s.callback.carried = some n → s.cellularNetwork = some n
  calls : ∀ k c, s.calls[k]? = some c → Dated seen k c

/-- A continuation with a network of the time of the call has been resumed. -/
theorem Dated.resume {m n : N} (h : Dated seen k c) (hopen : c.pc.isReturned = false)
    (hn : (k, n) ∈ seen) (hcont : c.cont.resume n = .resumed m) : (k, m) ∈ seen := by
  cases hold : c.cont with
  | active =>
      rw [hold] at hcont
      cases hcont
      exact hn
  | resumed n' =>
      rw [hold] at hcont
      cases hcont
      exact h.delivered _ hopen hold
  | cancelled =>
      rw [hold] at hcont
      cases hcont

/-- `releaseCellularNetwork` does not clear the network while `onAvailable` is handing it on. -/
def Undisturbed (s : CellularNetworkManager N) (e : CellularEvent N) : Prop :=
  e = .releaseNetwork → s.callback.carried = none

instance [DecidableEq N] (s : CellularNetworkManager N) (e : CellularEvent N) :
    Decidable (Undisturbed s e) :=
  inferInstanceAs (Decidable (e = .releaseNetwork → s.callback.carried = none))

theorem Current.init : Current (.init : CellularNetworkManager N) [] where
  carried n hn := by cases hn
  calls k c hc := by cases hc

theorem Dated.mono {seen' : List (ℕ × N)} (h : Dated seen k c) (hsub : seen ⊆ seen') :
    Dated seen' k c where
  inHand n hn := hsub (h.inHand n hn)
  delivered n hopen hcont := hsub (h.delivered n hopen hcont)

theorem Current.setCall {e : CellularEvent N} {j : ℕ} {c₀ : AwaitCall N} (h : Current s seen)
    (hc : s.calls[j]? = some c₀) (hcalls : t.calls = (s.setCall j c).calls)
    (hcarried : ∀ n, t.callback.carried = some n → t.cellularNetwork = some n)
    (hown : Dated (s.recordSeen e seen) j c) : Current t (s.recordSeen e seen) where
  carried := hcarried
  calls := by
    intro k c₁ hc₁
    rw [hcalls] at hc₁
    rcases setCall_calls hc hc₁ with ⟨rfl, rfl⟩ | ⟨-, hc₁⟩
    · exact hown
    · exact (h.calls k c₁ hc₁).mono (subset_recordSeen e)

theorem Current.keep {e : CellularEvent N} (h : Current s seen) (hcalls : t.calls = s.calls)
    (hcarried : ∀ n, t.callback.carried = some n → t.cellularNetwork = some n) :
    Current t (s.recordSeen e seen) where
  carried := hcarried
  calls k c hc := (h.calls k c (hcalls ▸ hc)).mono (subset_recordSeen e)

theorem Current.step [DecidableEq N] {e : CellularEvent N} (h : Current s seen)
    (hundisturbed : Undisturbed s e) (hstep : s.step e = some t) : Current t (s.recordSeen e seen) := by
  have hold : ∀ {j : ℕ} {c : AwaitCall N}, s.calls[j]? = some c → Dated (s.recordSeen e seen) j c :=
    fun hc => (h.calls _ _ hc).mono (subset_recordSeen e)
  cases transition hstep with
  | awaitNetwork =>
      refine ⟨h.carried, fun k c hc => ?_⟩
      by_cases hlt : k < s.calls.length
      · rw [List.getElem?_append_left hlt] at hc
        exact hold hc
      · rw [List.getElem?_append_right (Nat.le_of_not_lt hlt)] at hc
        obtain rfl := List.mem_singleton.mp (List.mem_of_getElem? hc)
        exact ⟨fun n hn => (by cases hn), fun n _ hcont => (by cases hcont)⟩
  | found j c n hc hpc hn =>
      refine h.setCall hc rfl h.carried ⟨fun m hm => ?_, fun m hopen => (by cases hopen)⟩
      obtain rfl := Option.some.inj hm
      exact mem_recordSeen hc (by rw [hpc]; rfl) hn
  | refound j c n hc hpc hn =>
      refine h.setCall hc rfl h.carried ⟨fun m hm => ?_,
        fun m _ => (hold hc).delivered m (by rw [hpc]; rfl)⟩
      obtain rfl := Option.some.inj hm
      exact mem_recordSeen hc (by rw [hpc]; rfl) hn
  | missing j c hc hpc hn | install j c hc hpc | cancelledBefore j c hc hpc hcont
  | register j c hc hpc | stillMissing j c hc hpc hn | beaten j c n hc hpc hres
  | timedOut j c hc hpc hcont | late j c n hc hpc hcont =>
      exact h.setCall hc rfl h.carried ⟨fun m hm => (by cases hm),
        fun m _ => (hold hc).delivered m (by rw [hpc]; rfl)⟩
  | claim j c n hc hpc hres =>
      exact h.setCall hc rfl h.carried ⟨fun m hm => (hold hc).inHand m (by rw [hpc]; exact hm),
        fun m _ => (hold hc).delivered m (by rw [hpc]; rfl)⟩
  | resume j c n hc hpc =>
      refine h.setCall hc rfl h.carried ⟨fun m hm => (by cases hm), fun m _ hcont => ?_⟩
      exact (hold hc).resume (by rw [hpc]; rfl) ((hold hc).inHand n (by rw [hpc]; rfl)) hcont
  | awake j c n hc hpc hcont =>
      refine h.setCall hc rfl h.carried ⟨fun m hm => ?_,
        fun m _ => (hold hc).delivered m (by rw [hpc]; rfl)⟩
      obtain rfl := Option.some.inj hm
      exact (hold hc).delivered n (by rw [hpc]; rfl) hcont
  | finish j c r hc hpc =>
      exact h.setCall hc rfl h.carried ⟨fun m hm => (hold hc).inHand m (by rw [hpc]; exact hm),
        fun m hopen => (by cases hopen)⟩
  | timeout j c handler hc htimed hcont =>
      exact h.setCall hc rfl h.carried ⟨(hold hc).inHand, fun m _ hcont => (by cases hcont)⟩
  | onCancel j c hc hdue =>
      exact h.setCall hc rfl h.carried ⟨(hold hc).inHand, (hold hc).delivered⟩
  | onAvailable n hcb | onLost n hcb | nobody n hcb hwaiter | callbackBeaten j c n hcb hc hres
  | lost n hcb hn | other n hcb | clear hcb =>
      exact h.keep rfl fun m hm => (by cases hm)
  | store n hcb => exact h.keep rfl fun m hm => hm
  | wake n j hcb hwaiter => exact h.keep rfl fun m hm => h.carried m (by rw [hcb]; exact hm)
  | callbackClaim j c n hcb hc hres =>
      exact h.setCall hc rfl (fun m hm => h.carried m (by rw [hcb]; exact hm))
        ⟨(hold hc).inHand, (hold hc).delivered⟩
  | callbackResume j c n hcb hc =>
      have hn : s.cellularNetwork = some n := h.carried n (by rw [hcb]; rfl)
      refine h.setCall hc rfl (fun m hm => (by cases hm))
        ⟨(hold hc).inHand, fun m hopen hcont => ?_⟩
      exact (hold hc).resume hopen (mem_recordSeen hc hopen hn) hcont
  | stopMonitoring | releaseCellularNetwork => exact h.keep rfl h.carried
  | releaseNetwork hreleasing =>
      refine h.keep rfl fun m hm => ?_
      cases (hundisturbed rfl).symm.trans hm

end CellularNetworkManager

open CellularNetworkManager

variable [DecidableEq N]

/-- In a run in which no release cuts into `onAvailable`, a call of `awaitNetwork` returns a network
that was there during the call. -/
theorem awaited_network_was_current {evs : List (CellularEvent N)} {st : CellularNetworkManager N}
    {seen : List (ℕ × N)} (hundisturbed : Meets CellularNetworkManager.step Undisturbed .init evs)
    (hrun : run (record CellularNetworkManager.step recordSeen) (.init, []) evs = some (st, seen))
    {k : ℕ} {c : AwaitCall N} {n : N} (hc : st.calls[k]? = some c)
    (hreturned : c.pc = .returned (some n)) : (k, n) ∈ seen := by
  have hinv : Current st seen := record_invariant_of_meets
    (fun _ _ _ _ h hmeets hstep => h.step hmeets hstep) Current.init hundisturbed hrun
  exact (hinv.calls k c hc).inHand n (by rw [hreturned]; rfl)

/-- The network `7` comes between the two looks of a call, and the waiter and the second look
compete for the continuation. -/
def competition : List (CellularEvent ℕ) :=
  List.flatten [[.awaitNetwork], List.replicate 3 (.go 0), [.onAvailable 7],
    List.replicate 2 .callback, List.replicate 2 (.go 0), [.callback],
    List.replicate 3 (.go 0)]

theorem awaited_network_was_current_competition : ∃ st seen,
    run (record CellularNetworkManager.step recordSeen) (.init, []) competition = some (st, seen) ∧
      st.calls[0]? = some ⟨.returned (some 7), true, .resumed 7, .registered⟩ ∧ (0, 7) ∈ seen := by
  obtain ⟨⟨st, seen⟩, hrun, hcall⟩ := exists_run_of_any
    (P := fun p => p.1.calls[0]? = some ⟨.returned (some 7), true, .resumed 7, .registered⟩)
    (by decide : (run (record CellularNetworkManager.step recordSeen) (.init, [])
      competition).any _ = true)
  exact ⟨st, seen, hrun, hcall, awaited_network_was_current (by decide) hrun hcall rfl⟩

end FiveGProxy
