import FiveGProxy.Slots.Quota
import FiveGProxy.Slots.Setup
import Mathlib.Data.Finset.Image

/-!
# When the slots run out

There are more slots than the quota admits connections, but a finalizer gives the unit of the quota
back before the slot. Between the two the slot is taken without being counted, and every thread that
stands there takes one slot from the reserve.
-/

namespace FiveGProxy

open Steps

/-! ### Threads between the unit and the slot -/

/-- The slot of the connection whose unit the thread has given back, and which is not on the stack of
free slots yet. -/
def uncountedSlot (eng : EpollEngine) (sub : Agent → Bool) (a : Agent) : Option ℕ :=
  match eng.unrefAt a with
  | some (r, .release) => if sub a = true then some r.slot else none
  | some (r, .push _) => some r.slot
  | some (_, .call) | some (_, .exchange) | some (_, .poison) | none => none

theorem behind_iff_uncountedSlot {eng : EpollEngine} {sub : Agent → Bool} {a : Agent} {s : ℕ} :
    Behind eng sub a s ↔ uncountedSlot eng sub a = some s := by
  unfold Behind uncountedSlot
  constructor
  · rintro ⟨r, pc, hat, rfl, ⟨rfl, hsub⟩ | ⟨t, rfl⟩⟩
    · simp [hat, hsub]
    · simp [hat]
  · intro h
    split at h
    · rename_i r hat
      split at h
      · exact ⟨r, .release, hat, Option.some.inj h, Or.inl ⟨rfl, ‹_›⟩⟩
      · cases h
    · rename_i r t hat
      exact ⟨r, .push t, hat, Option.some.inj h, Or.inr ⟨t, rfl⟩⟩
    all_goals cases h

namespace QuotaState

def agents (e : Engine) : Finset Agent :=
  (Finset.range e.workerCount).image Agent.worker ∪
    (Finset.range handshakePoolSize).image Agent.handshake

def occupied (st : QuotaState) (e : Engine) : Finset ℕ :=
  (Finset.range e.slotCount).filter fun s => s ∉ (st.engine e).freeSlots

/-- The threads of the engine that are in a finalizer, behind `fetch_sub` and in front of the end of
`slot_release`. -/
def uncounted (st : QuotaState) (e : Engine) : Finset Agent :=
  (agents e).filter fun a => (uncountedSlot (st.engine e) (st.subtracted e) a).isSome

theorem mem_agents {e : Engine} {a : Agent} : a ∈ agents e ↔
    (∃ w < e.workerCount, a = .worker w) ∨ ∃ h < handshakePoolSize, a = .handshake h := by
  simp only [agents, Finset.mem_union, Finset.mem_image, Finset.mem_range]
  constructor
  · rintro (⟨w, hw, rfl⟩ | ⟨h, hh, rfl⟩)
    · exact Or.inl ⟨w, hw, rfl⟩
    · exact Or.inr ⟨h, hh, rfl⟩
  · rintro (⟨w, hw, rfl⟩ | ⟨h, hh, rfl⟩)
    · exact Or.inl ⟨w, hw, rfl⟩
    · exact Or.inr ⟨h, hh, rfl⟩

end QuotaState

/-! ### No other threads -/

/-- Only the workers and the handshake threads of the engine do anything. -/
structure InRange (e : Engine) (eng : EpollEngine) : Prop where
  worker : ∀ w, eng.worker w ≠ .loopTest → w < e.workerCount
  handshake : ∀ h, eng.handshake h ≠ .idle → h < handshakePoolSize

section

variable {e : Engine} {eng eng' : EpollEngine} {a : Agent} {w h : ℕ}

theorem InRange.unrefAt (hr : InRange e eng) {p : Ref × UnrefPc} (hat : eng.unrefAt a = some p) :
    a ∈ QuotaState.agents e := by
  rw [QuotaState.mem_agents]
  cases a with
  | worker w =>
      refine Or.inl ⟨w, hr.worker w fun hpc => ?_, rfl⟩
      simp [EpollEngine.unrefAt, hpc] at hat
  | handshake h =>
      refine Or.inr ⟨h, hr.handshake h fun hpc => ?_, rfl⟩
      simp [EpollEngine.unrefAt, hpc] at hat

theorem workerStep_moves {choice : Bool} {batch : List (BitVec 64)}
    (hstep : eng.workerStep e w choice batch = some eng') :
    eng'.handshake = eng.handshake ∧ ∃ pc, eng'.worker = Function.update eng.worker w pc := by
  cases EpollEngine.worker_transition hstep with
  | unref r rest u k st₁ u' hpc hunref =>
      have hframe := EpollEngine.unref_frame hunref
      exact ⟨hframe.handshake, _, congrArg (Function.update · w _) hframe.worker⟩
  | _ => exact ⟨rfl, _, rfl⟩

theorem InRange.workerStep (hr : InRange e eng) {choice : Bool} {batch : List (BitVec 64)}
    (hstep : engineStep e eng (.worker w choice batch) = some eng') : InRange e eng' := by
  simp only [engineStep] at hstep
  split at hstep
  case isFalse => cases hstep
  case isTrue hw =>
    obtain ⟨hhandshake, pc, hworker⟩ := workerStep_moves hstep
    refine ⟨fun v hv => ?_, fun h hh => hr.handshake h (hhandshake ▸ hh)⟩
    by_cases hvw : v = w
    · exact hvw ▸ hw
    · rw [hworker, Function.update_of_ne hvw] at hv
      exact hr.worker v hv

theorem InRange.handshakeStep (hr : InRange e eng) {ok : Bool}
    (hstep : engineStep e eng (.handshake h ok) = some eng') : InRange e eng' := by
  obtain ⟨hbusy, hworker, -, -, pc, hhandshake⟩ := handshakeStep_same hstep
  refine ⟨fun w hw => hr.worker w (hworker ▸ hw), fun i hi => ?_⟩
  by_cases hih : i = h
  · exact hih ▸ hr.handshake h hbusy
  · rw [hhandshake, Function.update_of_ne hih] at hi
    exact hr.handshake i hi

theorem InRange.handoff (hr : InRange e eng) {idx : ℕ} {roles : List FdRole}
    (hstep : eng.handoffStep e h idx roles = some eng') : InRange e eng' := by
  have hready := hstep
  unfold EpollEngine.handoffStep at hready
  split at hready
  case isFalse => cases hready
  case isTrue hidle =>
    cases hfree : eng.freeSlots with
    | nil =>
        rw [hfree] at hready
        cases hready
        exact hr
    | cons s rest =>
        obtain ⟨-, -, -, -, hworker, hhandshake⟩ := handoffStep_spec hfree hstep
        refine ⟨fun w hw => hr.worker w (hworker ▸ hw), fun i hi => ?_⟩
        by_cases hih : i = h
        · exact hih ▸ hidle.2.1
        · rw [hhandshake, Function.update_of_ne hih] at hi
          exact hr.handshake i hi

theorem InRange.step {st st' : QuotaState} {ev : QuotaEvent} (hr : ∀ e, InRange e (st.engine e))
    (hstep : quotaStep st ev = some st') (e : Engine) : InRange e (st'.engine e) := by
  have set : ∀ {d : Engine} {eng : EpollEngine}, InRange d eng →
      InRange e (Function.update st.engine d eng e) := by
    intro d eng heng
    by_cases hed : e = d
    · subst hed
      rwa [Function.update_self]
    · rw [Function.update_of_ne hed]
      exact hr e
  have thread : ∀ {d : Engine} {a : Agent} {next : Option EpollEngine},
      st.threadStep d a next = some st' → (∀ eng, next = some eng → InRange d eng) →
      InRange e (st'.engine e) := by
    intro d a next hthread hnext
    unfold QuotaState.threadStep at hthread
    split at hthread
    · cases hthread
    · obtain ⟨eng, heng, rfl⟩ := Option.map_eq_some_iff.mp hthread
      exact set (hnext eng heng)
  cases ev with
  | fetchAdd d h | connector h ok | fetchSub h =>
      simp only [quotaStep] at hstep
      split at hstep
      · cases hstep
        exact hr e
      · cases hstep
  | slotAcquire h idx roles =>
      simp only [quotaStep] at hstep
      split at hstep
      · rename_i d hcaller
        obtain ⟨eng, heng, hst'⟩ := Option.map_eq_some_iff.mp hstep
        split at hst'
        · cases hst'
          exact hr e
        · cases hst'
          exact set ((hr d).handoff heng)
      · cases hstep
  | finalizeSub d a =>
      simp only [quotaStep] at hstep
      split at hstep
      · cases hstep
        exact hr e
      · cases hstep
  | handshake d h ok => exact thread hstep fun eng heng => (hr d).handshakeStep heng
  | worker d w choice batch => exact thread hstep fun eng heng => (hr d).workerStep heng
  | quit =>
      cases hstep
      exact ⟨(hr e).worker, (hr e).handshake⟩

end

/-! ### The reserve -/

variable {st : QuotaState}

theorem uncountedSlot_of_over {e : Engine} (hinv : QuotaInv st) (hr : InRange e (st.engine e)) {s : ℕ}
    (hs : s ∉ (st.engine e).freeSlots) (hheld : (e, (st.engine e).current s) ∈ st.acquired)
    (hended : (e, (st.engine e).current s) ∈ st.ended) :
    ∃ a ∈ st.uncounted e, uncountedSlot (st.engine e) (st.subtracted e) a = some s := by
  obtain ⟨-, -, -, hover⟩ := hinv.engine e
  rcases (hover _ hheld).mp hended with hlt | hfree | ⟨a, ha⟩
  · exact absurd hlt (lt_irrefl _)
  · exact absurd hfree hs
  · have hslot := behind_iff_uncountedSlot.mp ha
    obtain ⟨q, pc, hat, -⟩ := ha
    exact ⟨a, Finset.mem_filter.mpr ⟨hr.unrefAt hat, by rw [hslot]; rfl⟩, hslot⟩

/-- A slot that is taken is counted by the quota, or a thread has it between the unit and the slot. -/
theorem occupied_le {e : Engine} (hinv : QuotaInv st) (hr : InRange e (st.engine e)) :
    (st.occupied e).card ≤ st.tenancies.card + (st.uncounted e).card := by
  have hsub : st.occupied e ⊆ st.tenancies.image (fun p => p.2.slot) ∪
      (st.uncounted e).image fun a => (uncountedSlot (st.engine e) (st.subtracted e) a).getD 0 := by
    intro s hs
    obtain ⟨hlt, hfree⟩ := Finset.mem_filter.mp hs
    have hheld := (hinv.engine e).held s (Finset.mem_range.mp hlt) hfree
    rw [Finset.mem_union, Finset.mem_image, Finset.mem_image]
    by_cases hended : (e, (st.engine e).current s) ∈ st.ended
    · obtain ⟨a, ha, hslot⟩ := uncountedSlot_of_over hinv hr hfree hheld hended
      exact Or.inr ⟨a, ha, by rw [hslot]; rfl⟩
    · exact Or.inl ⟨_, Finset.mem_sdiff.mpr ⟨hheld, hended⟩, rfl⟩
  calc (st.occupied e).card ≤ _ := Finset.card_le_card hsub
    _ ≤ _ := Finset.card_union_le _ _
    _ ≤ st.tenancies.card + (st.uncounted e).card :=
      Nat.add_le_add Finset.card_image_le Finset.card_image_le

/-- `slot_acquire` returns `-1` exactly when there is no free slot. -/
theorem slotAcquire_failed {e : Engine} {h idx : ℕ} {roles : List FdRole} {st' : QuotaState}
    (hcaller : st.caller h = .acquire e)
    (hstep : quotaStep st (.slotAcquire h idx roles) = some st') :
    st'.caller h = .failed ↔ (st.engine e).freeSlots = [] := by
  simp only [quotaStep, hcaller] at hstep
  obtain ⟨eng, -, hst'⟩ := Option.map_eq_some_iff.mp hstep
  split at hst'
  · rename_i hfree
    cases hst'
    exact iff_of_true (Function.update_self ..) hfree
  · rename_i s rest hfree
    cases hst'
    refine iff_of_false ?_ (by simp [hfree])
    show Function.update st.caller h .idle h ≠ .failed
    simp

/-- In every reachable state the slots that are taken, with the threads that have been admitted and
have no slot yet, are at most the quota and the threads between the unit and the slot; so such a
thread gets `-1` only while there are at least 89 of these. -/
theorem slots_suffice {evs : List QuotaEvent} (hrun : run quotaStep QuotaState.init evs = some st)
    (e : Engine) :
    (st.occupied e).card + st.admitted.card ≤ maxConcurrentConns + (st.uncounted e).card ∧
      ∀ h idx roles st', st.caller h = .acquire e →
        quotaStep st (.slotAcquire h idx roles) = some st' → st'.caller h = .failed →
          88 < (st.uncounted e).card := by
  have hinv : QuotaInv st :=
    run_invariant (P := QuotaInv) (fun _ _ _ h hstep => h.step hstep) QuotaInv.init hrun
  have hr : ∀ e, InRange e (st.engine e) :=
    run_invariant (P := fun st => ∀ e, InRange e (st.engine e))
      (fun _ _ _ h hstep => InRange.step h hstep)
      (fun e => ⟨fun w hw => absurd rfl hw, fun h hh => absurd rfl hh⟩) hrun
  have hle := occupied_le hinv (hr e)
  have hbounded := hinv.bounded
  have hsum : (st.occupied e).card + st.admitted.card ≤
      maxConcurrentConns + (st.uncounted e).card := by omega
  refine ⟨hsum, fun h idx roles st' hcaller hstep hfailed => ?_⟩
  have hfree := (slotAcquire_failed hcaller hstep).mp hfailed
  have hfull : (st.occupied e).card = e.slotCount := by
    rw [QuotaState.occupied, hfree]
    simp
  have hadmitted : 0 < st.admitted.card := by
    refine Finset.card_pos.mpr ⟨h, Finset.mem_filter.mpr ⟨?_, by simp [hcaller]⟩⟩
    exact Finset.mem_range.mpr (hinv.range h (by simp [hcaller]))
  have hcount : e.slotCount = maxConcurrentConns + 88 := by cases e <;> rfl
  omega

/-- A buffer cannot be allocated, and the thread has given the unit back and not the slot. -/
def halfReleased : List QuotaEvent :=
  List.flatten [[.fetchAdd .tcp 0, .connector 0 true, .slotAcquire 0 0 [.client, .target]],
    List.replicate 11 (.handshake .tcp 0 true), List.replicate 4 (.handshake .tcp 0 false),
    [.finalizeSub .tcp (.handshake 0)]]

theorem slots_suffice_halfReleased : ∃ st, run quotaStep QuotaState.init halfReleased = some st ∧
    (st.occupied .tcp).card + st.admitted.card ≤ maxConcurrentConns + (st.uncounted .tcp).card ∧
      ∀ h idx roles st', st.caller h = .acquire .tcp →
        quotaStep st (.slotAcquire h idx roles) = some st' → st'.caller h = .failed →
          88 < (st.uncounted .tcp).card := by
  obtain ⟨st, hst⟩ := Option.isSome_iff_exists.mp
    (by decide +kernel : (run quotaStep QuotaState.init halfReleased).isSome = true)
  exact ⟨st, hst, slots_suffice hst .tcp⟩

/-! ### A run that uses up the slots -/

/-- No thread that has passed the check gets `-1` from `slot_acquire` or `udp_slot_acquire` now. -/
def NeverRefused (st : QuotaState) : Prop :=
  ∀ e h idx roles st', st.caller h = .acquire e →
    quotaStep st (.slotAcquire h idx roles) = some st' → st'.caller h ≠ .failed

section RunOut

variable {st st' : QuotaState} {n k m h : ℕ}

theorem QuotaState.setEngine_self (st : QuotaState) (e : Engine) :
    st.setEngine e (st.engine e) = st := by
  simp [QuotaState.setEngine]

/-- What a thread does while it sets up a session is a run of the two engines. -/
theorem setup_reaches_quota {e : Engine} {eng : EpollEngine}
    (hsub : st.subtracted e (.handshake h) = false)
    (hreach : Reaches (setupStep e h) (st.engine e) eng) :
    Reaches quotaStep st (st.setEngine e eng) := by
  have hsame : Function.update st.subtracted e
      (Function.update (st.subtracted e) (.handshake h) false) = st.subtracted := by
    rw [← hsub, Function.update_eq_self, Function.update_eq_self]
  have hmap : Reaches quotaStep (st.setEngine e (st.engine e)) (st.setEngine e eng) := by
    refine hreach.map (st.setEngine e) fun eng ok eng' hstep => ?_
    obtain ⟨hthread, hnot⟩ := setupStep_eq_some hstep
    refine ⟨.handshake e h ok, ?_⟩
    have hguard : ¬(((st.setEngine e eng).engine e).Releasing (.handshake h) ∧
        (st.setEngine e eng).subtracted e (.handshake h) = false) := by
      rintro ⟨hrel, -⟩
      obtain ⟨⟨r, u⟩, hat, rfl⟩ := Option.map_eq_some_iff.mp hrel
      simp only [QuotaState.setEngine, Function.update_self, EpollEngine.unrefAt] at hat
      split at hat
      · cases hat
        exact hnot _ ‹_›
      · cases hat
    simp only [quotaStep, QuotaState.threadStep, if_neg hguard, engineStep]
    simp only [QuotaState.setEngine, Function.update_self, hthread, Option.map_some, hsame,
      Function.update_idem]
  rwa [QuotaState.setEngine_self] at hmap

/-- There are `n` sessions and `m` free slots, and threads 1 to `k` may be anywhere. -/
structure Loaded (n k m : ℕ) (st : QuotaState) : Prop where
  count : st.connCount = n
  free : (st.engine .udp).freeSlots = (List.range m).reverse
  caller : ∀ h, st.caller h = .idle
  tcp : ∀ h, (st.engine .tcp).handshake h = .idle
  udp : ∀ h, h = 0 ∨ k < h → (st.engine .udp).handshake h = .idle
  subtracted : ∀ h, h = 0 ∨ k < h → st.subtracted .udp (.handshake h) = false
  locks : ∀ w, (st.engine .udp).listLock w = none
  stopping : (st.engine .udp).stopping 0 = false

theorem Loaded.init : Loaded 0 0 udpSlotCount QuotaState.init where
  count := rfl
  free := by
    simp only [QuotaState.init, EpollEngine.init]
    rfl
  caller _ := rfl
  tcp _ := rfl
  udp _ _ := rfl
  subtracted _ _ := rfl
  locks _ := rfl
  stopping := rfl

/-- Thread `h` has a new slot, filled in; nothing else has changed. -/
structure Admitted (st : QuotaState) (h m : ℕ) (r : Ref) (st' : QuotaState) : Prop where
  count : st'.connCount = st.connCount + 1
  free : (st'.engine .udp).freeSlots = (List.range m).reverse
  caller : st'.caller = st.caller
  tcp : st'.engine .tcp = st.engine .tcp
  udp : (st'.engine .udp).handshake = Function.update (st.engine .udp).handshake h
    (.prepare r 0 [.client, .remoteUdp] [])
  subtracted : st'.subtracted = st.subtracted
  locks : (st'.engine .udp).listLock = (st.engine .udp).listLock
  stopping : (st'.engine .udp).stopping = (st.engine .udp).stopping
  refs : ((st'.engine .udp).conn r.slot).refs = 1
  finalized : ((st'.engine .udp).conn r.slot).finalized = false

theorem Loaded.admit (hl : Loaded n k (m + 1) st) (hn : n < maxConcurrentConns)
    (hh : h < handshakePoolSize) (hfree : h = 0 ∨ k < h) :
    ∃ r st', Reaches quotaStep st st' ∧ Admitted st h m r st' := by
  have hstack : (st.engine .udp).freeSlots = m :: (List.range m).reverse := by
    rw [hl.free, List.range_succ, List.reverse_append]
    rfl
  have hready : h < handshakePoolSize ∧ st.caller h = .idle ∧
      (st.engine .tcp).handshake h = .idle ∧ (st.engine .udp).handshake h = .idle :=
    ⟨hh, hl.caller h, hl.tcp h, hl.udp h hfree⟩
  have hquota : ¬(maxConcurrentConns : ℤ) ≤ st.connCount := by
    rw [hl.count]
    omega
  have hidle : Function.update st.caller h .idle = st.caller := by
    rw [← hl.caller h, Function.update_eq_self]
  obtain ⟨eng, hreach, hpc, hconn, hrest, -, hsame⟩ :=
    handedOff_reach (st.engine .udp) h m (List.range m).reverse
  have hcheck : quotaStep st (.fetchAdd .udp h) =
      some { st.setCaller h (.acquire .udp) with connCount := st.connCount + 1 } := by
    simp only [quotaStep, if_pos hready, if_neg hquota]
    rfl
  have hslot : quotaStep { st.setCaller h (.acquire .udp) with connCount := st.connCount + 1 }
      (.slotAcquire h 0 [.client, .remoteUdp]) =
        some { st.setEngine .udp (handedOff (st.engine .udp) h m (List.range m).reverse) with
          connCount := st.connCount + 1
          acquired := insert (.udp, ⟨m, (st.engine .udp).tenancy m + 1⟩) st.acquired } := by
    have hhandoff := handoffStep_eq (hl.udp h hfree) hh hstack
    simp only [quotaStep, QuotaState.setCaller, Function.update_self, hhandoff, Option.map_some,
      hstack, Function.update_idem, hidle, QuotaState.setEngine]
    simp [EpollEngine.current, handedOff]
  have hreach' : Reaches quotaStep
      { st.setEngine .udp (handedOff (st.engine .udp) h m (List.range m).reverse) with
        connCount := st.connCount + 1
        acquired := insert (.udp, ⟨m, (st.engine .udp).tenancy m + 1⟩) st.acquired } _ :=
    setup_reaches_quota (e := .udp) (hl.subtracted h hfree)
      (by simpa [QuotaState.setEngine] using hreach)
  refine ⟨⟨m, (st.engine .udp).tenancy m + 1⟩, _,
    ((Reaches.single hcheck).trans (Reaches.single hslot)).trans hreach', ?_⟩
  exact
    { count := rfl
      free := by simpa [QuotaState.setEngine] using hrest
      caller := rfl
      tcp := by simp [QuotaState.setEngine]
      udp := by simpa [QuotaState.setEngine] using hpc
      subtracted := rfl
      locks := by simpa [QuotaState.setEngine] using hsame.listLock
      stopping := by simpa [QuotaState.setEngine] using hsame.stopping
      refs := by simp [QuotaState.setEngine, hconn, slotAcquireStores, handoffStores, Store.apply]
      finalized := by
        simp [QuotaState.setEngine, hconn, slotAcquireStores, handoffStores, Store.apply] }

theorem Loaded.register (hl : Loaded n k (m + 1) st) (hn : n < maxConcurrentConns) :
    ∃ st', Reaches quotaStep st st' ∧ Loaded (n + 1) k m st' := by
  obtain ⟨r, st₁, hreach, ha⟩ := hl.admit (h := 0) hn (by decide) (Or.inl rfl)
  have hpc : (st₁.engine .udp).handshake 0 = .prepare r 0 [.client, .remoteUdp] [] := by
    rw [ha.udp, Function.update_self]
  obtain ⟨eng, hsetup, hpc', -, hrest, -, hsame⟩ := register_reach hpc
    (fun w => by rw [ha.locks]; exact hl.locks w) (by rw [ha.stopping]; exact hl.stopping)
  have hsub : st₁.subtracted .udp (.handshake 0) = false := by
    rw [ha.subtracted]
    exact hl.subtracted 0 (Or.inl rfl)
  refine ⟨_, hreach.trans (setup_reaches_quota hsub hsetup), ?_⟩
  have hudp : (st₁.setEngine .udp eng).engine .udp = eng := by simp [QuotaState.setEngine]
  have htcp : (st₁.setEngine .udp eng).engine .tcp = st.engine .tcp := by
    simp [QuotaState.setEngine, ha.tcp]
  have hsame₀ : eng.handshake = (st.engine .udp).handshake := by
    rw [hpc', ha.udp, Function.update_idem, ← hl.udp 0 (Or.inl rfl), Function.update_eq_self]
  exact
    { count := by
        show st₁.connCount = _
        rw [ha.count, hl.count, Int.natCast_succ]
      free := by rw [hudp, hrest, ha.free]
      caller := fun i => by
        show st₁.caller i = _
        rw [ha.caller, hl.caller i]
      tcp := fun i => by rw [htcp, hl.tcp i]
      udp := fun i hi => by rw [hudp, hsame₀, hl.udp i hi]
      subtracted := fun i hi => by
        show st₁.subtracted .udp _ = _
        rw [ha.subtracted, hl.subtracted i hi]
      locks := fun w => by rw [hudp, hsame.listLock, ha.locks, hl.locks w]
      stopping := by rw [hudp, hsame.stopping, ha.stopping, hl.stopping] }

theorem Loaded.park (hl : Loaded n k (m + 1) st) (hn : n < maxConcurrentConns)
    (hk : k + 1 < handshakePoolSize) :
    ∃ st', Reaches quotaStep st st' ∧ Loaded n (k + 1) m st' := by
  obtain ⟨r, st₁, hreach, ha⟩ := hl.admit hn hk (Or.inr (Nat.lt_succ_self k))
  have hpc : (st₁.engine .udp).handshake (k + 1) = .prepare r 0 [.client, .remoteUdp] [] := by
    rw [ha.udp, Function.update_self]
  obtain ⟨eng, hsetup, hpc', hrest, hlock, hstop⟩ := finalize_reach hpc ha.refs ha.finalized
    (fun w => by rw [ha.locks]; exact hl.locks w)
  have hsub : st₁.subtracted .udp (.handshake (k + 1)) = false := by
    rw [ha.subtracted]
    exact hl.subtracted _ (Or.inr (Nat.lt_succ_self k))
  have hudp : (st₁.setEngine .udp eng).engine .udp = eng := by simp [QuotaState.setEngine]
  have htcp : (st₁.setEngine .udp eng).engine .tcp = st.engine .tcp := by
    simp [QuotaState.setEngine, ha.tcp]
  have hgive : quotaStep (st₁.setEngine .udp eng) (.finalizeSub .udp (.handshake (k + 1))) =
      some { st₁.setEngine .udp eng with
        connCount := st₁.connCount - 1
        subtracted := Function.update st₁.subtracted .udp
          (Function.update (st₁.subtracted .udp) (.handshake (k + 1)) true)
        ended := insert (.udp, eng.current r.slot) st₁.ended } := by
    have hat : eng.unrefAt (.handshake (k + 1)) = some (r, .release) := by
      simp [EpollEngine.unrefAt, hpc']
    have hsub' : (st₁.setEngine .udp eng).subtracted .udp (.handshake (k + 1)) = false := hsub
    simp only [quotaStep, hudp, hat, hsub']
    rfl
  refine ⟨_, (hreach.trans (setup_reaches_quota hsub hsetup)).trans (Reaches.single hgive), ?_⟩
  have hne : ∀ i, i = 0 ∨ k + 1 < i → i ≠ k + 1 ∧ (i = 0 ∨ k < i) := fun i hi => by omega
  exact
    { count := by
        show st₁.connCount - 1 = _
        rw [ha.count, hl.count, add_sub_cancel_right]
      free := by
        show ((st₁.setEngine .udp eng).engine .udp).freeSlots = _
        rw [hudp, hrest, ha.free]
      caller := fun i => by
        show st₁.caller i = _
        rw [ha.caller, hl.caller i]
      tcp := fun i => by
        show ((st₁.setEngine .udp eng).engine .tcp).handshake i = _
        rw [htcp, hl.tcp i]
      udp := fun i hi => by
        show ((st₁.setEngine .udp eng).engine .udp).handshake i = _
        rw [hudp, hpc', ha.udp, Function.update_idem, Function.update_of_ne (hne i hi).1,
          hl.udp i (hne i hi).2]
      subtracted := fun i hi => by
        have hagent : Agent.handshake i ≠ .handshake (k + 1) :=
          fun heq => (hne i hi).1 (Agent.handshake.inj heq)
        show Function.update st₁.subtracted .udp
          (Function.update (st₁.subtracted .udp) (.handshake (k + 1)) true) .udp (.handshake i) = _
        rw [Function.update_self, Function.update_of_ne hagent, ha.subtracted,
          hl.subtracted i (hne i hi).2]
      locks := fun w => by
        show ((st₁.setEngine .udp eng).engine .udp).listLock w = _
        rw [hudp, hlock, ha.locks, hl.locks w]
      stopping := by
        show ((st₁.setEngine .udp eng).engine .udp).stopping 0 = _
        rw [hudp, hstop, ha.stopping, hl.stopping] }

/-- With `k` threads between the unit and the slot, `n` sessions use up the table. -/
theorem exists_loaded (hn : n ≤ maxConcurrentConns) (hk : k < handshakePoolSize)
    (hall : n + k = udpSlotCount) :
    ∃ st, Reaches quotaStep QuotaState.init st ∧ Loaded n k 0 st := by
  have hparks : ∃ st, Reaches quotaStep QuotaState.init st ∧ Loaded 0 k (n + (k - k)) st := by
    refine Reaches.iterate (I := fun i st => Loaded 0 i (n + (k - i)) st)
      (fun i hi st hl => ?_) ?_
    · rw [show n + (k - i) = n + (k - (i + 1)) + 1 by omega] at hl
      exact hl.park (by decide) (by omega)
    · rw [Nat.sub_zero, hall]
      exact Loaded.init
  obtain ⟨st₁, hreach₁, hparked⟩ := hparks
  rw [Nat.sub_self, Nat.add_zero] at hparked
  have hsessions : ∃ st, Reaches quotaStep st₁ st ∧ Loaded n k (n - n) st := by
    refine Reaches.iterate (I := fun i st => Loaded i k (n - i) st) (fun i hi st hl => ?_) hparked
    rw [show n - i = n - (i + 1) + 1 by omega] at hl
    exact hl.register (by omega)
  obtain ⟨st, hreach, hfull⟩ := hsessions
  rw [Nat.sub_self] at hfull
  exact ⟨st, hreach₁.trans hreach, hfull⟩

/-- A thousandth connection passes the check, and there is no slot for it. -/
theorem slots_run_out : ∃ evs st, run quotaStep QuotaState.init evs = some st ∧ ¬NeverRefused st := by
  obtain ⟨st, hreach, hl⟩ : ∃ st, Reaches quotaStep QuotaState.init st ∧ Loaded 999 89 0 st :=
    exists_loaded (by decide) (by decide) rfl
  have hready : 0 < handshakePoolSize ∧ st.caller 0 = .idle ∧
      (st.engine .tcp).handshake 0 = .idle ∧ (st.engine .udp).handshake 0 = .idle :=
    ⟨by decide, hl.caller 0, hl.tcp 0, hl.udp 0 (Or.inl rfl)⟩
  have hquota : ¬(maxConcurrentConns : ℤ) ≤ st.connCount := by
    rw [hl.count]
    decide
  have hcheck : quotaStep st (.fetchAdd .udp 0) =
      some { st.setCaller 0 (.acquire .udp) with connCount := st.connCount + 1 } := by
    simp only [quotaStep, if_pos hready, if_neg hquota]
    rfl
  obtain ⟨evs, hrun⟩ := hreach.trans (Reaches.single hcheck)
  refine ⟨evs, _, hrun, fun hnever => ?_⟩
  have hcaller : (st.setCaller 0 (.acquire .udp)).caller 0 = .acquire .udp :=
    Function.update_self 0 _ st.caller
  have hhandoff : (st.engine .udp).handoffStep .udp 0 0 [.client, .remoteUdp] =
      some (st.engine .udp) := by
    have hthread : (st.engine .udp).handshake 0 = .idle ∧ 0 < handshakePoolSize ∧
        0 < Engine.workerCount .udp ∧ [FdRole.client, .remoteUdp] ∈ Engine.roleLists .udp :=
      ⟨hl.udp 0 (Or.inl rfl), by decide, by decide, by decide⟩
    simp only [EpollEngine.handoffStep, if_pos hthread, hl.free]
    rfl
  have hstep : quotaStep { st.setCaller 0 (.acquire .udp) with connCount := st.connCount + 1 }
      (.slotAcquire 0 0 [.client, .remoteUdp]) =
        some (QuotaState.setCaller { st.setCaller 0 (.acquire .udp) with
          connCount := st.connCount + 1 } 0 .failed) := by
    have hfree : (st.engine .udp).freeSlots = [] := hl.free
    have hengine : (st.setCaller 0 (.acquire .udp)).engine .udp = st.engine .udp := rfl
    simp only [quotaStep, hcaller, hengine, hhandoff, hfree, Option.map_some]
  refine hnever .udp 0 0 [.client, .remoteUdp] _ hcaller hstep ?_
  simp [QuotaState.setCaller]

end RunOut

end FiveGProxy
