import FiveGProxy.Library.Fair
import FiveGProxy.Slots.ListScan
import Mathlib.Data.List.Perm.Subperm

/-!
# The scan comes to its end

Every step of the worker brings the scan nearer to the end of the list, or the bucket nearer to its
end; what is put in front meanwhile does not count. The worker waits for the lock only while a
handshake thread has it, and that thread gives it back after two steps.
-/

namespace FiveGProxy

open Steps

variable {me : ℕ} {own : ℕ → Holder} {st st' : ListRun} {h : ℕ} {ev : ListEvent}

/-! ### The worker -/

def UnrefPc.stage : UnrefPc → ℕ
  | call => 5
  | exchange => 4
  | poison => 3
  | release => 2
  | push _ => 1

def ScanPc.work (garbage : ℕ) : ScanPc → ℕ
  | events _ => 0
  | scan _ => 10 * garbage + 1
  | unref [] _ _ => 13
  | unref (_ :: rest) u _ => 10 * (rest.length + 1) + u.stage + 8
  | relock _ _ => 12

namespace ListRun

def UnderWay (st : ListRun) : Prop := st.Scanning ∧ st.worker ≠ .scan none

def scanRank (st : ListRun) : ℕ :=
  20 * (st.start.length - st.passed.length) + st.worker.work st.garbage.length

end ListRun

theorem unrefStep_stage {r : Ref} {pc u : UnrefPc} {st₁ : ListRun}
    (hstep : st.unrefStep me r pc = some (st₁, some u)) : u.stage < pc.stage := by
  cases pc with
  | push s => cases hstep
  | call | exchange | poison | release =>
      simp only [ListRun.unrefStep] at hstep
      grind -ring -linarith -order -ac [UnrefPc.stage]

theorem work_unref (garbage : ℕ) (l : List Ref) (saved : Option (Ref × Option ℕ)) :
    (ScanPc.unref l .call saved).work garbage ≤ 10 * l.length + 13 := by
  cases l with
  | nil => exact Nat.le_refl _
  | cons r rest => simp [ScanPc.work, UnrefPc.stage]

theorem underWay_or (hscanning : st.Scanning) : st.worker = .scan none ∨ st.UnderWay := by
  by_cases hend : st.worker = .scan none
  · exact Or.inl hend
  · exact Or.inr ⟨hscanning, hend⟩

theorem scanning_of_saved {next : Option ℕ} (hsaved : st.worker.saved = some next) : st.Scanning := by
  rw [ListRun.Scanning, hsaved]
  rfl

theorem ListInv.passed_lt (hinv : ListInv me st) {s : ℕ} (hpc : st.worker = .scan (some s)) :
    st.passed.length < st.start.length := by
  obtain ⟨own, hown⟩ := hinv.owned
  obtain ⟨rest, hok⟩ := hinv.scan _ (ListInv.saved_of_scan hpc)
  obtain ⟨tail, rfl, -⟩ := hok.visit hown.base
  rw [hok.split]
  simp

theorem ListInv.scan_move (hinv : ListInv me st) (hway : st.UnderWay)
    (ht : ListRun.ScanTransition me st st') :
    st'.worker = .scan none ∨ st'.UnderWay ∧ st'.scanRank < st.scanRank := by
  cases ht with
  | scanEnd hpc => exact absurd hpc hway.2
  | collect s hpc =>
      refine (underWay_or (scanning_of_saved rfl)).imp_right fun h => ⟨h, ?_⟩
      have hlt := hinv.passed_lt hpc
      simp only [ListRun.scanRank, hpc, ScanPc.work, List.length_append, List.length_singleton]
      show 20 * (st.start.length - (st.passed.length + 1)) + _ < _
      omega
  | bucketFull s hpc =>
      refine (underWay_or (scanning_of_saved rfl)).imp_right fun h => ⟨h, ?_⟩
      have hlt := hinv.passed_lt hpc
      have hwork := work_unref st.garbage.length st.garbage (some (st.current s, st.links.next s))
      simp only [ListRun.scanRank, hpc, List.length_append, List.length_singleton]
      show 20 * (st.start.length - (st.passed.length + 1)) +
        (ScanPc.unref st.garbage .call (some (st.current s, st.links.next s))).work
          st.garbage.length < 20 * _ + (10 * _ + 1)
      omega
  | skip s hpc =>
      refine (underWay_or (scanning_of_saved rfl)).imp_right fun h => ⟨h, ?_⟩
      have hlt := hinv.passed_lt hpc
      simp only [ListRun.scanRank, hpc, ScanPc.work, List.length_append, List.length_singleton]
      omega
  | relock keep next hpc =>
      refine (underWay_or (scanning_of_saved rfl)).imp_right fun h => ⟨h, ?_⟩
      simp only [ListRun.scanRank, hpc, ScanPc.work, List.length_singleton]
      omega
  | unref r rest pc saved st₁ u hpc hunref =>
      obtain ⟨own, hown⟩ := hinv.owned
      have hholds := hown.worker
      rw [hpc] at hholds
      obtain ⟨hr, hun⟩ := hholds.todo (r, pc) List.mem_cons_self
      have hsaved : (ListRun.afterUnref r rest saved u).saved = st.worker.saved := by
        rw [hpc]
        cases u <;> cases saved <;> rfl
      have hscanning : ListRun.Scanning
          { st₁ with worker := ListRun.afterUnref r rest saved u } := by
        rw [ListRun.Scanning, hsaved]
        exact hway.1
      refine (underWay_or hscanning).imp_right fun h => ⟨h, ?_⟩
      cases unref_move hown.base hun (by simp [hr]) hunref with
      | go c u =>
          have hstage := unrefStep_stage hunref
          simp only [ListRun.scanRank, hpc, ScanPc.work, ListRun.afterUnref]
          show 20 * (st.start.length - st.passed.length) + _ < _
          omega
      | done =>
          have hwork := work_unref st.garbage.length rest saved
          simp only [ListRun.scanRank, hpc]
          show 20 * (st.start.length - st.passed.length) +
            (ScanPc.unref rest .call saved).work st.garbage.length <
              20 * _ + (10 * (rest.length + 1) + pc.stage + 8)
          omega
  | bucketEmpty pc keep next hpc =>
      refine (underWay_or (scanning_of_saved rfl)).imp_right fun h => ⟨h, ?_⟩
      simp only [ListRun.scanRank, hpc, ScanPc.work]
      omega

theorem SameWorker.underWay (hsame : SameWorker st st') (hway : st.UnderWay) :
    st'.UnderWay ∧ st'.scanRank = st.scanRank := by
  refine ⟨?_, ?_⟩
  · rw [ListRun.UnderWay, ListRun.Scanning, hsame.worker]
    exact hway
  · rw [ListRun.scanRank, hsame.worker, hsame.garbage, hsame.start, hsame.passed]
    rfl

theorem ListInv.other_move (hinv : ListInv me st) (hway : st.UnderWay)
    (ht : ListRun.Transition me st ev st') (hev : ev ≠ .worker) :
    st'.UnderWay ∧ st'.scanRank = st.scanRank := by
  obtain ⟨own, hown⟩ := hinv.owned
  have hscanning := hway.1
  cases ht with
  | handoff h ht | handshake h ok ht => exact (hown.handoff_same ht).underWay hway
  | epollWait n pc hpc | event n hpc | fatal n s hpc | noScan hpc | scanStart _ hpc =>
      rw [ListRun.Scanning, hpc] at hscanning
      cases hscanning
  | worker => exact absurd rfl hev
  | take | touch | give => exact SameWorker.underWay ⟨rfl, rfl, rfl, rfl⟩ hway

/-! ### The lock -/

def threadParty (h : ℕ) : Set ListEvent := {.handshake h true, .handshake h false}

def HandoffPc.hold : HandoffPc → ℕ
  | add _ => 2
  | rollback _ => 1
  | idle | fill _ | lock _ | register _ | unref .. => 0

theorem worker_enabled (hway : st.UnderWay)
    (hlock : st.listLock = none ∨ st.worker.Traversing) :
    Enabled (listStep me) {.worker} st := by
  refine ⟨.worker, rfl, ?_⟩
  obtain ⟨hscanning, hend⟩ := hway
  show (st.workerStep me).isSome = true
  unfold ListRun.workerStep
  cases hpc : st.worker with
  | events n =>
      rw [ListRun.Scanning, hpc] at hscanning
      cases hscanning
  | scan curr =>
      cases curr with
      | none => exact absurd hpc hend
      | some s =>
          dsimp only
          split
          · split <;> rfl
          · rfl
  | relock keep next =>
      rcases hlock with hfree | ht
      · simp [hfree]
      · rw [hpc] at ht
        exact ht.elim
  | unref l pc saved =>
      have hfree : st.listLock = none := hlock.resolve_right fun ht => by
        rw [hpc] at ht
        exact ht
      cases l with
      | nil =>
          cases saved with
          | none =>
              rw [ListRun.Scanning, hpc] at hscanning
              cases hscanning
          | some p => rfl
      | cons r rest =>
          dsimp only
          rw [Option.isSome_map]
          cases pc <;> simp only [ListRun.unrefStep, hfree, if_true, Option.isSome_some]
          split <;> rfl

theorem thread_enabled (hpc : ∃ r, st.handshake h = .add r ∨ st.handshake h = .rollback r) :
    Enabled (listStep me) (threadParty h) st := by
  obtain ⟨r, hpc | hpc⟩ := hpc
  · exact ⟨.handshake h true, Or.inl rfl, by simp [listStep, ListRun.handshakeStep, hpc]⟩
  · exact ⟨.handshake h true, Or.inl rfl, by simp [listStep, ListRun.handshakeStep, hpc]⟩

theorem ListOwned.handoff_lock (hown : ListOwned me own st)
    (hlock : st.listLock = some (.handshake h)) {i : ℕ} (ht : ListRun.HandoffTransition me st i st') :
    st'.listLock = none ∨ st'.listLock = some (.handshake h) ∧
      (st'.handshake h).hold ≤ (st.handshake h).hold ∧
        (i = h → (st'.handshake h).hold < (st.handshake h).hold) := by
  obtain ⟨r, hr⟩ := hown.lock _ hlock
  by_cases hi : i = h
  · subst hi
    have hat : ∀ {pc : HandoffPc}, st.handshake i = pc → pc = .add r ∨ pc = .rollback r :=
      fun hpc => hpc ▸ hr
    cases ht with
    | refused hpc | acquire s rest hpc | fill q ok hpc | lock q hpc | register q hpc
    | unref q pc st₁ u hpc =>
        rcases hat hpc with heq | heq <;> cases heq
    | added | rollback => exact Or.inl rfl
    | addFailed q hpc =>
        have hless : (((st.close q.slot).setHandshake i (.rollback q)).handshake i).hold <
            (st.handshake i).hold := by
          rw [hpc]
          simp [ListRun.setHandshake, HandoffPc.hold]
        exact Or.inr ⟨hlock, hless.le, fun _ => hless⟩
  · have hother : ∀ pc, Function.update st.handshake i pc h = st.handshake h := fun pc =>
      Function.update_of_ne (Ne.symm hi) ..
    have hstays : ∀ {st' : ListRun} {pc : HandoffPc}, st'.listLock = st.listLock →
        st'.handshake = Function.update st.handshake i pc →
        st'.listLock = none ∨ st'.listLock = some (.handshake h) ∧
          (st'.handshake h).hold ≤ (st.handshake h).hold ∧
            (i = h → (st'.handshake h).hold < (st.handshake h).hold) := fun hsame hhand =>
      Or.inr ⟨hsame.trans hlock, by rw [hhand, hother], fun heq => absurd heq hi⟩
    have hthread := hown.threads i
    cases ht with
    | refused => exact Or.inr ⟨hlock, Nat.le_refl _, fun heq => absurd heq hi⟩
    | lock q hpc hfree => cases hfree.symm.trans hlock
    | added q hpc =>
        rw [hpc] at hthread
        cases hthread.2.2.symm.trans hlock
        exact absurd rfl hi
    | rollback q hpc =>
        rw [hpc] at hthread
        cases hthread.2.2.symm.trans hlock
        exact absurd rfl hi
    | unref q pc st₁ u hpc hunref =>
        rw [hpc] at hthread
        cases unref_move hown.base hthread.2 (by simp [hthread.1]) hunref with
        | go | done => exact hstays rfl rfl
    | acquire | fill | addFailed | register => exact hstays rfl rfl

theorem ListInv.lock_move (hinv : ListInv me st) (hlock : st.listLock = some (.handshake h))
    (ht : ListRun.Transition me st ev st') :
    st'.listLock = none ∨ st'.listLock = some (.handshake h) ∧
      (st'.handshake h).hold ≤ (st.handshake h).hold ∧
        (ev ∈ threadParty h → (st'.handshake h).hold < (st.handshake h).hold) := by
  obtain ⟨own, hown⟩ := hinv.owned
  have hsame : ∀ {st' : ListRun}, st'.listLock = st.listLock → st'.handshake = st.handshake →
      ev ∉ threadParty h → st'.listLock = none ∨ st'.listLock = some (.handshake h) ∧
        (st'.handshake h).hold ≤ (st.handshake h).hold ∧
          (ev ∈ threadParty h → (st'.handshake h).hold < (st.handshake h).hold) :=
    fun hl hh hev => Or.inr ⟨hl.trans hlock, by rw [hh], fun hmem => absurd hmem hev⟩
  have hnot : ¬st.worker.Traversing := fun ht => by cases (hown.worker.lock ht).symm.trans hlock
  cases ht with
  | handoff i ht =>
      exact (hown.handoff_lock hlock ht).imp_right fun ⟨h₁, h₂, _⟩ =>
        ⟨h₁, h₂, by simp [threadParty]⟩
  | handshake i ok ht =>
      refine (hown.handoff_lock hlock ht).imp_right fun ⟨h₁, h₂, h₃⟩ => ⟨h₁, h₂, fun hev => h₃ ?_⟩
      rcases hev with hev | hev <;> cases hev <;> rfl
  | epollWait | event | noScan | take | touch | give => exact hsame rfl rfl (by simp [threadParty])
  | fatal n s hpc hfree => cases hfree.symm.trans hlock
  | scanStart expired hpc hfree => cases hfree.symm.trans hlock
  | worker ht =>
      have hev : ListEvent.worker ∉ threadParty h := by simp [threadParty]
      cases ht with
      | scanEnd hpc | collect s hpc | bucketFull s hpc | skip s hpc =>
          exact absurd (hpc ▸ trivial) hnot
      | relock keep next hpc hfree => cases hfree.symm.trans hlock
      | unref r rest pc saved st₁ u hpc hunref =>
          have hholds := hown.worker
          rw [hpc] at hholds
          obtain ⟨hr, hun⟩ := hholds.todo (r, pc) List.mem_cons_self
          cases unref_move hown.base hun (by simp [hr]) hunref with
          | go | done => exact hsame rfl rfl hev
      | bucketEmpty => exact hsame rfl rfl hev

/-! ### Fair behaviours -/

section

variable {b : Behaviour (listStep me)}

theorem listInv_always (h : ListInv me (b.state 0)) (n : ℕ) : ListInv me (b.state n) :=
  b.always (fun _ _ _ h hstep => h.step (ListRun.transition_of_step hstep)) h n

theorem ListInv.move (hinv : ListInv me st) (hway : st.UnderWay)
    (ht : ListRun.Transition me st ev st') :
    st'.worker = .scan none ∨ st'.UnderWay ∧ st'.scanRank ≤ st.scanRank ∧
      (ev ∈ ({.worker} : Set ListEvent) → st'.scanRank < st.scanRank) := by
  by_cases hev : ev = .worker
  · subst hev
    cases ht with
    | worker ht =>
        exact (hinv.scan_move hway ht).imp_right fun ⟨hw, hlt⟩ => ⟨hw, hlt.le, fun _ => hlt⟩
  · obtain ⟨hw, heq⟩ := hinv.other_move hway ht hev
    exact Or.inr ⟨hw, heq.le, fun hmem => absurd hmem hev⟩

theorem worker_leadsTo (hinv : ∀ n, ListInv me (b.state n)) (hfair : ∀ h, b.WeakFair (threadParty h)) :
    b.LeadsTo ListRun.UnderWay
      fun st => st.worker = .scan none ∨ Enabled (listStep me) {.worker} st := by
  intro n hway
  cases hlock : (b.state n).listLock with
  | none => exact ⟨n, Nat.le_refl n, Or.inr (worker_enabled hway (Or.inl hlock))⟩
  | some a =>
      obtain ⟨own, hown⟩ := (hinv n).owned
      have hheld := hown.lock a hlock
      cases a with
      | worker w => exact ⟨n, Nat.le_refl n, Or.inr (worker_enabled hway (Or.inr hheld.2))⟩
      | handshake h =>
          have hmoves : ∀ s a t, ListInv me s →
              s.UnderWay ∧ s.listLock = some (.handshake h) → listStep me s a = some t →
              (t.worker = .scan none ∨ Enabled (listStep me) {.worker} t) ∨
                (t.UnderWay ∧ t.listLock = some (.handshake h)) ∧
                  (t.handshake h).hold ≤ (s.handshake h).hold ∧
                    (a ∈ threadParty h → (t.handshake h).hold < (s.handshake h).hold) := by
            intro s a t hs ⟨hw, hl⟩ hst
            have ht := ListRun.transition_of_step hst
            rcases hs.move hw ht with hend | ⟨hw', -⟩
            · exact Or.inl (Or.inl hend)
            · rcases hs.lock_move hl ht with hfree | ⟨hl', hle, hlt⟩
              · exact Or.inl (Or.inr (worker_enabled hw' (Or.inl hfree)))
              · exact Or.inr ⟨⟨hw', hl'⟩, hle, hlt⟩
          have hrelease := (hfair h).leadsTo (P := fun s => s.UnderWay ∧
              s.listLock = some (.handshake h)) (fun s => (s.handshake h).hold) hinv
            (fun s hs hw => thread_enabled ?_)
            (fun s a t hs hw hst => (hmoves s a t hs hw hst).imp_right fun ⟨hP, hle, _⟩ => ⟨hP, hle⟩)
            fun s a t hs hw ha hst =>
              (hmoves s a t hs hw hst).imp_right fun ⟨_, _, hlt⟩ => hlt ha
          · exact hrelease n ⟨hway, hlock⟩
          · obtain ⟨own, hown⟩ := hs.owned
            exact hown.lock _ hw.2

theorem scan_leadsTo (hinv : ∀ n, ListInv me (b.state n)) (hworker : b.StrongFair {.worker})
    (hfair : ∀ h, b.WeakFair (threadParty h)) :
    b.LeadsTo ListRun.Scanning fun st => st.worker = .scan none := by
  have hends := hworker.leadsTo_of_rank ListRun.scanRank hinv (worker_leadsTo hinv hfair)
    (fun s a t hs hw hst =>
      (hs.move hw (ListRun.transition_of_step hst)).imp_right fun ⟨hP, hle, _⟩ => ⟨hP, hle⟩)
    fun s a t hs hw ha hst =>
      (hs.move hw (ListRun.transition_of_step hst)).imp_right fun ⟨_, _, hlt⟩ => hlt ha
  intro n hn
  rcases underWay_or hn with hend | hway
  · exact ⟨n, Nat.le_refl n, hend⟩
  · exact hends n hway

end

/-- In every interleaving of the worker with threads that put connections on its list, the list is
well formed, the pointer that the scan has saved is on it, and the scan collects once each what is
registered and expired at its start, and nothing that is not expired. When the worker and the threads
are not stopped for ever, it comes to the end of the list. -/
theorem list_scan (me : ℕ) :
    (∀ evs st, run (listStep me) ListRun.init evs = some st → ListSafe me st) ∧
      ∀ b : Behaviour (listStep me), b.state 0 = ListRun.init → b.StrongFair {.worker} →
        (∀ h, b.WeakFair (threadParty h)) →
          b.LeadsTo ListRun.Scanning fun st => st.worker = .scan none := by
  refine ⟨fun evs st hrun => ?_, fun b hstart hworker hfair => ?_⟩
  · have hinv : ListInv me st := run_invariant
      (fun _ _ _ h hstep => h.step (ListRun.transition_of_step hstep)) (.init me) hrun
    exact hinv.safe
  · exact scan_leadsTo (listInv_always (hstart ▸ .init me)) hworker hfair

/-! ### A scan that fills the bucket -/

section FullBucket

variable {k : ℕ}

/-- Thread `0` has put `k` connections on the list of worker `0`, and nothing else has happened. -/
structure Gathered (k : ℕ) (st : ListRun) : Prop where
  inv : ListInv 0 st
  worker : st.worker = .events 0
  idle : ∀ h, st.handshake h = .idle
  lock : st.listLock = none
  garbage : st.garbage = []
  free : st.freeSlots.length + k = Engine.tcp.slotCount
  members : st.members.length = k
  registered : ∀ s ∈ st.members, (st.conn s).registered = true

theorem Gathered.init : Gathered 0 ListRun.init :=
  ⟨.init 0, rfl, fun _ => rfl, rfl, rfl, by simp [ListRun.init], rfl, by rintro s ⟨⟩⟩

/-- The whole of `handoff_to_worker`. -/
theorem Gathered.handoff (h : Gathered k st) (hk : k < Engine.tcp.slotCount) :
    ∃ st', Reaches (listStep 0) st st' ∧ Gathered (k + 1) st' := by
  obtain ⟨s, rest, hfree⟩ : ∃ s rest, st.freeSlots = s :: rest := by
    refine List.exists_cons_of_ne_nil fun hnil => ?_
    have hcount := h.free
    rw [hnil, List.length_nil, Nat.zero_add] at hcount
    exact hk.ne hcount
  have hcount := h.free
  rw [hfree, List.length_cons] at hcount
  suffices hrun : ∃ st', run (listStep 0) st
      (.handoff 0 :: List.replicate 4 (.handshake 0 true)) = some st' ∧
        (ListInv 0 st' → Gathered (k + 1) st') by
    obtain ⟨st', hrun, hgathered⟩ := hrun
    exact ⟨st', ⟨_, hrun⟩, hgathered (h.inv.of_run hrun)⟩
  simp only [List.replicate, run_cons, run_nil, listStep, ListRun.handoffStep, h.idle, if_true, hfree,
    Option.bind_some, ListRun.handshakeStep, ListRun.setHandshake, ListRun.setConn,
    ListRun.listAddLocked, Function.update_self, h.lock]
  refine ⟨_, rfl, fun hinv => ⟨hinv, h.worker, fun i => ?_, rfl, h.garbage, ?_, ?_, fun i hi => ?_⟩⟩
  · by_cases hi : i = 0
    · simp [hi]
    · simp [hi, h.idle i]
  · show rest.length + (k + 1) = _
    omega
  · exact congrArg Nat.succ h.members
  · by_cases his : i = s
    · simp [his]
    · have hmem : i ∈ st.members := (List.mem_cons.mp hi).resolve_left his
      simpa [his] using h.registered i hmem

theorem exists_gathered (hk : k ≤ Engine.tcp.slotCount) :
    ∃ st, Reaches (listStep 0) ListRun.init st ∧ Gathered k st :=
  Reaches.iterate (fun _ hi _ h => h.handoff (Nat.lt_of_lt_of_le hi hk)) Gathered.init

/-- The scan has found `j` of the `k` connections on the list, all of them expired. -/
structure Sweeping (k j : ℕ) (st : ListRun) : Prop where
  inv : ListInv 0 st
  worker : ∃ curr, st.worker = .scan curr
  idle : ∀ h, st.handshake h = .idle
  expired : ∀ r, st.expired r = true
  start : st.start.length = k
  ready : st.ready = st.start
  collected : st.collected.length = j
  garbage : st.garbage.length = j
  registered : ∀ s ∈ st.members, (st.conn s).registered = true

theorem Gathered.sweep (h : Gathered k st) :
    ∃ st', Reaches (listStep 0) st st' ∧ Sweeping k 0 st' := by
  have hstep : listStep 0 st (.scanStart fun _ => true) = some
      { st with
        listLock := some (.worker 0)
        worker := .scan st.links.head
        expired := fun _ => true
        start := st.members.map st.current
        ready := (st.members.map st.current).filter fun r => (st.conn r.slot).registered
        passed := []
        collected := []
        inserted := [] } := if_pos ⟨h.worker, h.lock⟩
  refine ⟨_, .single hstep, h.inv.step (ListRun.transition_of_step hstep), ⟨_, rfl⟩, h.idle,
    fun _ => rfl, ?_, ?_, rfl, congrArg List.length h.garbage, h.registered⟩
  · exact (List.length_map _).trans h.members
  · refine List.filter_eq_self.mpr fun r hr => ?_
    obtain ⟨s, hs, rfl⟩ := List.mem_map.mp hr
    exact h.registered s hs

/-- There is still a connection on the list, and it is to be collected. -/
theorem Sweeping.next {j : ℕ} (h : Sweeping k j st) (hj : j < k) :
    ∃ s ∈ st.members, st.worker = .scan (some s) ∧ st.Collectable s := by
  obtain ⟨curr, hpc⟩ := h.worker
  obtain ⟨own, hown⟩ := h.inv.owned
  cases curr with
  | none =>
      have hsub : st.start ⊆ st.collected := fun r hr =>
        (h.inv.safe.complete hpc r hr (h.ready ▸ hr)).mpr (h.expired r)
      obtain ⟨rest, hok⟩ := h.inv.scan _ (ListInv.saved_of_scan hpc)
      have hle := (hok.nodup.subperm hsub).length_le
      rw [h.start, h.collected] at hle
      exact absurd hle (Nat.not_le_of_lt hj)
  | some s =>
      have hmem := h.inv.curr_mem (ListInv.saved_of_scan hpc)
      have hhung := hown.base.hung hmem
      exact ⟨s, hmem, hpc, hhung.magic, hhung.closed, h.registered s hmem, h.expired _⟩

theorem Sweeping.collect {j : ℕ} (h : Sweeping k j st) (hj : j < k) (hroom : j < maxEvents) :
    ∃ st', Reaches (listStep 0) st st' ∧ Sweeping k (j + 1) st' := by
  obtain ⟨s, hmem, hpc, hcollect⟩ := h.next hj
  have hstep : listStep 0 st .worker = some
      { st.close s with
        garbage := st.garbage ++ [st.current s]
        worker := .scan (st.links.next s)
        passed := st.passed ++ [st.current s]
        collected := st.collected ++ [st.current s] } := by
    show st.workerStep 0 = _
    simp only [ListRun.workerStep, hpc, if_pos hcollect, h.garbage, hroom, if_true]
  refine ⟨_, .single hstep, h.inv.step (ListRun.transition_of_step hstep), ⟨_, rfl⟩, h.idle,
    h.expired, h.start, h.ready, ?_, ?_, fun i hi => ?_⟩
  · show (st.collected ++ [st.current s]).length = j + 1
    rw [List.length_append, h.collected, List.length_singleton]
  · show (st.garbage ++ [st.current s]).length = j + 1
    rw [List.length_append, h.garbage, List.length_singleton]
  · have hold := h.registered i (List.mem_of_mem_erase hi)
    show (Function.update st.conn s { st.conn s with closed := true } i).registered = true
    by_cases his : i = s
    · subst his
      simpa using hold
    · simpa [his] using hold

theorem exists_fullBucket : ∃ st, Reaches (listStep 0) ListRun.init st ∧
    (∃ saved, st.worker = .unref st.garbage .call (some saved)) ∧
      st.garbage.length = maxEvents ∧ ∀ h, st.handshake h = .idle := by
  obtain ⟨st₁, hreach₁, hgathered⟩ := exists_gathered (k := maxEvents + 1) (by decide)
  obtain ⟨st₂, hreach₂, hsweep⟩ := hgathered.sweep
  obtain ⟨st₃, hreach₃, hfull⟩ := Reaches.iterate (I := Sweeping (maxEvents + 1)) (n := maxEvents)
    (fun _ hi _ h => h.collect (Nat.lt_succ_of_lt hi) hi) hsweep
  obtain ⟨s, -, hpc, hcollect⟩ := hfull.next (Nat.lt_succ_self _)
  have hstep : listStep 0 st₃ .worker = some
      { st₃.close s with
        listLock := none
        worker := .unref st₃.garbage .call (some (st₃.current s, st₃.links.next s))
        passed := st₃.passed ++ [st₃.current s]
        collected := st₃.collected ++ [st₃.current s] } := by
    show st₃.workerStep 0 = _
    simp only [ListRun.workerStep, hpc, if_pos hcollect, hfull.garbage, Nat.lt_irrefl, if_false]
  exact ⟨_, ((hreach₁.trans hreach₂).trans hreach₃).trans (.single hstep), ⟨_, rfl⟩,
    hfull.garbage, hfull.idle⟩

theorem ListInv.worker_handshake (hinv : ListInv me st) (hstep : listStep me st .worker = some st') :
    st'.handshake = st.handshake := by
  obtain ⟨own, hown⟩ := hinv.owned
  cases ListRun.transition_of_step hstep with
  | worker ht =>
      cases ht with
      | unref r rest pc saved st₁ u hpc hunref =>
          have hholds := hown.worker
          rw [hpc] at hholds
          obtain ⟨hr, hun⟩ := hholds.todo (r, pc) List.mem_cons_self
          cases unref_move hown.base hun (by simp [hr]) hunref with
          | go | done => rfl
      | _ => rfl

theorem thread_not_enabled (hidle : st.handshake h = .idle) :
    ¬Enabled (listStep me) (threadParty h) st := by
  rintro ⟨a, rfl | rfl, ha⟩ <;> simp [listStep, ListRun.handshakeStep, hidle] at ha

theorem follow_weakFair {as : List ListEvent} (hrun : run (listStep 0) ListRun.init as = some st)
    (hidle : ∀ h, st.handshake h = .idle) (h : ℕ) :
    (Behaviour.follow (listStep 0) (fun n => as[n]?.getD .worker) ListRun.init).WeakFair
      (threadParty h) := by
  generalize hb : Behaviour.follow (listStep 0) (fun n => as[n]?.getD .worker) ListRun.init = b
  have hstart : b.state 0 = ListRun.init := by rw [← hb]; rfl
  have hstate : b.state as.length = st := by rw [← hb]; exact Behaviour.follow_state_length hrun
  have hworker : ∀ m, as.length ≤ m → ∀ a, b.action m = some a → a = .worker := by
    intro m hm a ha
    rw [← hb] at ha
    obtain ⟨-, -, rfl⟩ := Option.map_eq_some_iff.mp ha
    show as[m]?.getD ListEvent.worker = .worker
    rw [List.getElem?_eq_none hm, Option.getD_none]
  have hstays : ∀ m, as.length ≤ m → (b.state m).handshake h = .idle := by
    refine Behaviour.always_from (b := b) (P := fun st : ListRun => st.handshake h = .idle)
      (hstate ▸ hidle h) ?_
    intro m hm a ha hbefore hstep
    rw [hworker m hm a ha] at hstep
    have hinv : ListInv 0 (b.state m) := listInv_always (hstart ▸ .init 0) m
    rw [hinv.worker_handshake hstep, hbefore]
  intro n
  exact ⟨max n as.length, Nat.le_max_left _ _,
    Or.inr (thread_not_enabled (hstays _ (Nat.le_max_right _ _)))⟩

end FullBucket

/-- A full bucket is emptied in the middle of the scan, and the scan still comes to its end. -/
theorem list_scan_fullBucket : ∃ b : Behaviour (listStep 0), b.state 0 = ListRun.init ∧
    ∃ n, (∃ saved, (b.state n).worker = .unref (b.state n).garbage .call (some saved)) ∧
      (b.state n).garbage.length = maxEvents ∧ ListSafe 0 (b.state n) ∧
      ∃ m, n ≤ m ∧ (b.state m).worker = .scan none := by
  obtain ⟨st, ⟨as, hrun⟩, ⟨saved, hpc⟩, hfull, hidle⟩ := exists_fullBucket
  have halone : ∀ n, as.length ≤ n → as[n]?.getD ListEvent.worker = .worker := fun n hn => by
    rw [List.getElem?_eq_none hn, Option.getD_none]
  have hstate := Behaviour.follow_state_length (c := ListEvent.worker) hrun
  have hscan := (list_scan 0).2 _ rfl (Behaviour.follow_strongFair halone)
    (follow_weakFair hrun hidle)
  refine ⟨Behaviour.follow (listStep 0) (fun n => as[n]?.getD .worker) ListRun.init, rfl,
    as.length, ?_⟩
  rw [hstate]
  refine ⟨⟨saved, hpc⟩, hfull, (list_scan 0).1 as st hrun, hscan as.length ?_⟩
  rw [hstate, ListRun.Scanning, hpc]
  rfl

end FiveGProxy
