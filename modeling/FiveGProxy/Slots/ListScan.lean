import FiveGProxy.Slots.ListStep

/-!
# What the scan finds

The list is what was put in front since the scan began, then what the scan has come past and left
there, then what it has still to see; the pointer that it has saved is the first of these, whatever
happens in front of it while the lock is free.
-/

namespace FiveGProxy

open Steps

def ScanPc.saved : ScanPc → Option (Option ℕ)
  | scan curr => some curr
  | unref _ _ (some (_, next)) => some next
  | relock _ next => some next
  | events _ | unref _ _ none => none

/-- `rest` is what the scan has still to see. -/
structure ScanOk (st : ListRun) (next : Option ℕ) (rest : List Ref) : Prop where
  split : st.start = st.passed ++ rest
  next : next = rest.head?.map Ref.slot
  nodup : st.start.Nodup
  list : st.members.map st.current =
    st.inserted ++ (st.passed.filter (· ∉ st.collected) ++ rest)
  collected : st.collected.Sublist st.passed
  ready : ∀ r ∈ rest, r ∈ st.ready → (st.conn r.slot).registered = true
  found : ∀ r ∈ st.passed, r ∈ st.ready → st.expired r = true → r ∈ st.collected
  expired : ∀ r ∈ st.collected, st.expired r = true
  adding : ∀ h r, st.handshake h = .add r → r ∈ st.inserted

/-- The record of the scan has not changed. -/
structure SameScan (st st' : ListRun) : Prop where
  start : st'.start = st.start
  ready : st'.ready = st.ready
  passed : st'.passed = st.passed
  collected : st'.collected = st.collected
  inserted : st'.inserted = st.inserted
  expired : st'.expired = st.expired

variable {me : ℕ} {own : ℕ → Holder} {st st' : ListRun} {next : Option ℕ} {rest : List Ref} {s h : ℕ}
  {c : Conn} {r : Ref}

theorem ListRun.current_injective (st : ListRun) : Function.Injective st.current := fun _ _ heq =>
  congrArg Ref.slot heq

theorem ListBase.nodup_current (hb : ListBase me own st) : (st.members.map st.current).Nodup :=
  hb.list.nodup.map st.current_injective

theorem ListBase.hung (hb : ListBase me own st) (hmem : s ∈ st.members) : (st.conn s).Hung me s := by
  have hslot := hb.slots s
  have hlinked := (hb.members s).mp hmem
  cases hown : own s <;> rw [hown] at hslot hlinked
  case pending => exact hslot.1
  case listed => exact hslot.1
  all_goals exact absurd hlinked (by simp)

namespace ScanOk

theorem mem_members (hok : ScanOk st next rest) (hr : r ∈ rest) :
    r.slot ∈ st.members ∧ st.current r.slot = r := by
  have hmem : r ∈ st.members.map st.current := by
    rw [hok.list]
    exact List.mem_append_right _ (List.mem_append_right _ hr)
  obtain ⟨s, hs, rfl⟩ := List.mem_map.mp hmem
  exact ⟨hs, rfl⟩

theorem frame (hok : ScanOk st next rest) (hsame : SameScan st st')
    (hmembers : st'.members = st.members)
    (htenancy : ∀ t ∈ st.members, st'.tenancy t = st.tenancy t)
    (hconn : st'.conn = Function.update st.conn s c)
    (hreg : s ∈ st.members → (st.conn s).registered = true → c.registered = true)
    (hadd : ∀ h r, st'.handshake h = .add r → st.handshake h = .add r) : ScanOk st' next rest where
  split := by rw [hsame.start, hsame.passed, hok.split]
  next := hok.next
  nodup := hsame.start ▸ hok.nodup
  list := by
    rw [hmembers, hsame.inserted, hsame.passed, hsame.collected, ← hok.list]
    exact List.map_congr_left fun t ht => congrArg (Ref.mk t) (htenancy t ht)
  collected := by
    rw [hsame.collected, hsame.passed]
    exact hok.collected
  ready r hr hready := by
    have hold := hok.ready r hr (hsame.ready ▸ hready)
    rw [hconn]
    by_cases hs : r.slot = s
    · rw [hs, Function.update_self]
      rw [hs] at hold
      exact hreg (hs ▸ (hok.mem_members hr).1) hold
    · rwa [Function.update_of_ne hs]
  found r := by
    rw [hsame.passed, hsame.ready, hsame.expired, hsame.collected]
    exact hok.found r
  expired r := by
    rw [hsame.collected, hsame.expired]
    exact hok.expired r
  adding h r hr := by
    rw [hsame.inserted]
    exact hok.adding h r (hadd h r hr)

end ScanOk

theorem add_of_update {pc : HandoffPc} (hpc : ∀ r, pc ≠ .add r) (i : ℕ) (r : Ref)
    (hi : Function.update st.handshake h pc i = .add r) : st.handshake i = .add r := by
  by_cases hih : i = h
  · subst hih
    rw [Function.update_self] at hi
    exact absurd hi (hpc r)
  · rwa [Function.update_of_ne hih] at hi

/-! ### The threads -/

namespace ScanOk

theorem lockAdd (hok : ScanOk st next rest) (hr : st.current r.slot = r) :
    ScanOk { (st.listAddLocked r).setHandshake h (.add r) with listLock := some (.handshake h) }
      next rest where
  split := hok.split
  next := hok.next
  nodup := hok.nodup
  list := by
    show st.current r.slot :: st.members.map st.current = r :: st.inserted ++ _
    rw [hr, hok.list]
    rfl
  collected := hok.collected
  ready := hok.ready
  found := hok.found
  expired := hok.expired
  adding i q hi := by
    by_cases hih : i = h
    · subst hih
      have heq : HandoffPc.add r = .add q := by simpa [ListRun.setHandshake] using hi
      cases heq
      exact List.mem_cons_self
    · refine List.mem_cons_of_mem _ (hok.adding i q ?_)
      simpa [ListRun.setHandshake, ListRun.listAddLocked, hih] using hi

/-- The connection that has just been put in front is taken out again. -/
theorem addFailed (hok : ScanOk st next rest) (hpc : st.handshake h = .add r)
    (hr : st.current r.slot = r) (honly : ∀ i q, st.handshake i = .add q → i = h) :
    ScanOk ((st.close r.slot).setHandshake h (.rollback r)) next rest where
  split := hok.split
  next := hok.next
  nodup := hok.nodup
  list := by
    show (st.members.erase r.slot).map st.current = st.inserted.erase (st.current r.slot) ++ _
    rw [List.map_erase st.current_injective, hr, hok.list,
      List.erase_append_left _ (hok.adding h r hpc)]
    rfl
  collected := hok.collected
  ready q hq hready := by
    have hold := hok.ready q hq hready
    show (Function.update st.conn r.slot _ q.slot).registered = true
    by_cases hqr : q.slot = r.slot
    · rw [hqr, Function.update_self]
      rwa [hqr] at hold
    · rwa [Function.update_of_ne hqr]
  found := hok.found
  expired := hok.expired
  adding i q hi := by
    have hold := add_of_update (by simp) i q hi
    obtain rfl := honly i q hold
    simp [ListRun.setHandshake] at hi

end ScanOk

/-- Only the thread that has the lock is behind `list_add_locked`. -/
theorem ListOwned.add_unique (hinv : ListOwned me own st) (hpc : st.handshake h = .add r) (i : ℕ)
    (q : Ref) (hi : st.handshake i = .add q) : i = h := by
  have hok := hinv.threads h
  rw [hpc] at hok
  have hoki := hinv.threads i
  rw [hi] at hoki
  cases hok.2.2.symm.trans hoki.2.2
  rfl

/-- A thread leaves the worker and the scan alone, apart from what it puts in front. -/
theorem ScanOk.handoff (hinv : ListOwned me own st) (hok : ScanOk st next rest)
    (ht : ListRun.HandoffTransition me st h st') : ScanOk st' next rest := by
  have hb := hinv.base
  have hthread := hinv.threads h
  cases ht with
  | refused => exact hok
  | acquire s tail hpc hfree =>
      have hown : own s = .free := hb.free.2 s (by rw [hfree]; exact List.mem_cons_self)
      have hnot : s ∉ st.members := hb.not_mem (by simp [hown])
      refine hok.frame ⟨rfl, rfl, rfl, rfl, rfl, rfl⟩ rfl (fun t ht => ?_) rfl
        (fun hmem => absurd hmem hnot) (add_of_update (by rintro _ ⟨⟩))
      have hts : t ≠ s := by
        rintro rfl
        exact hnot ht
      exact Function.update_of_ne hts ..
  | fill r ok hpc =>
      rw [hpc] at hthread
      have hnot : r.slot ∉ st.members := hb.not_mem (by simp [hthread.1])
      refine hok.frame ⟨rfl, rfl, rfl, rfl, rfl, rfl⟩ rfl (fun _ _ => rfl) rfl
        (fun hmem => absurd hmem hnot) (add_of_update ?_)
      cases ok <;> simp
  | lock r hpc =>
      rw [hpc] at hthread
      exact hok.lockAdd (congrArg (Ref.mk r.slot) hthread.2.1)
  | added r hpc | rollback r hpc =>
      exact hok.frame (s := 0) ⟨rfl, rfl, rfl, rfl, rfl, rfl⟩ rfl (fun _ _ => rfl)
        (Function.update_eq_self 0 st.conn).symm (fun _ => id) (add_of_update (by rintro _ ⟨⟩))
  | addFailed r hpc =>
      have hadd := hpc
      rw [hpc] at hthread
      exact hok.addFailed hpc (congrArg (Ref.mk r.slot) hthread.2.1) (hinv.add_unique hadd)
  | register r hpc =>
      exact hok.frame ⟨rfl, rfl, rfl, rfl, rfl, rfl⟩ rfl (fun _ _ => rfl) rfl (fun _ _ => rfl)
        (add_of_update (by rintro _ ⟨⟩))
  | unref r pc st₁ u hpc hunref =>
      rw [hpc] at hthread
      cases unref_move hb hthread.2 (by simp [hthread.1]) hunref with
      | go c u hun hclosed hregistered =>
          exact hok.frame ⟨rfl, rfl, rfl, rfl, rfl, rfl⟩ rfl (fun _ _ => rfl) rfl
            (fun _ hreg => hregistered.trans hreg) (add_of_update (by rintro _ ⟨⟩))
      | done =>
          exact hok.frame (s := 0) ⟨rfl, rfl, rfl, rfl, rfl, rfl⟩ rfl (fun _ _ => rfl)
            (Function.update_eq_self 0 st.conn).symm (fun _ => id) (add_of_update (by rintro _ ⟨⟩))

/-! ### The visits -/

namespace ScanOk

/-- The scan stands at the first connection that it has still to see. -/
theorem visit (hb : ListBase me own st) (hok : ScanOk st (some s) rest) :
    ∃ tail, rest = st.current s :: tail ∧ st.links.next s = tail.head?.map Ref.slot ∧
      s ∈ st.members := by
  cases hrest : rest with
  | nil =>
      subst hrest
      cases hok.next
  | cons r tail =>
      have hslot : s = r.slot := by
        have hnext := hok.next
        rw [hrest] at hnext
        exact Option.some.inj hnext
      obtain ⟨hmem, hcur⟩ := hok.mem_members (hrest ▸ List.mem_cons_self : r ∈ rest)
      have hlist := hok.list
      rw [hrest, ← List.append_assoc] at hlist
      obtain ⟨pre, suf, hmembers, -, hsuf⟩ := List.map_eq_append_iff.mp hlist
      obtain ⟨t, post, rfl, ht, hpost⟩ := List.map_eq_cons_iff.mp hsuf
      have hts : t = s := by rw [hslot, ← ht]; rfl
      refine ⟨tail, by rw [hslot, hcur], ?_, hslot ▸ hmem⟩
      rw [← hts, hb.list.next_eq pre t post hmembers, ← hpost, List.head?_map, Option.map_map]
      exact Option.map_id'.symm

theorem not_mem_collected (hok : ScanOk st next (r :: rest)) : r ∉ st.collected ∧ r ∉ st.passed := by
  have hnodup := hok.nodup
  rw [hok.split, List.nodup_append'] at hnodup
  have hpassed : r ∉ st.passed := fun hmem => hnodup.2.2 hmem List.mem_cons_self
  exact ⟨fun hmem => hpassed (hok.collected.subset hmem), hpassed⟩

theorem skip (hb : ListBase me own st) (hok : ScanOk st (some s) rest)
    (hskip : ¬st.Collectable s) : ∃ tail,
      ScanOk { st with worker := .scan (st.links.next s), passed := st.passed ++ [st.current s] }
        (st.links.next s) tail := by
  obtain ⟨tail, rfl, hnext, hmem⟩ := hok.visit hb
  have hnot := hok.not_mem_collected.1
  refine ⟨tail, ?_⟩
  exact {
    split := by
      show st.start = st.passed ++ [st.current s] ++ tail
      rw [hok.split, List.append_assoc]
      rfl
    next := hnext
    nodup := hok.nodup
    list := by
      show st.members.map st.current =
        st.inserted ++ ((st.passed ++ [st.current s]).filter (· ∉ st.collected) ++ tail)
      rw [hok.list, List.filter_append]
      simp [hnot]
    collected := hok.collected.trans (List.sublist_append_left _ _)
    ready := fun r hr => hok.ready r (List.mem_cons_of_mem _ hr)
    found := fun r hr hready hexpired => by
      rcases List.mem_append.mp hr with hr | hr
      · exact hok.found r hr hready hexpired
      · obtain rfl := List.mem_singleton.mp hr
        have hreg := hok.ready _ List.mem_cons_self hready
        -- it is on the list, so that only the timeouts can have kept it there
        have hhung := hb.hung hmem
        exact absurd ⟨hhung.magic, hhung.closed, hreg, hexpired⟩ hskip
    expired := hok.expired
    adding := hok.adding }

theorem collect (hb : ListBase me own st) (hok : ScanOk st (some s) rest)
    (hcollect : st.Collectable s) (hclose : st'.members = st.members.erase s)
    (hconn : st'.conn = (st.close s).conn) (htenancy : st'.tenancy = st.tenancy)
    (hhandshake : st'.handshake = st.handshake) (hexpired : st'.expired = st.expired)
    (hstart : st'.start = st.start) (hready : st'.ready = st.ready)
    (hinserted : st'.inserted = st.inserted.erase (st.current s))
    (hpassed : st'.passed = st.passed ++ [st.current s])
    (hcollected : st'.collected = st.collected ++ [st.current s]) :
    ∃ tail, ScanOk st' (st.links.next s) tail := by
  obtain ⟨tail, rfl, hnext, hmem⟩ := hok.visit hb
  obtain ⟨hnotc, hnotp⟩ := hok.not_mem_collected
  have hnodup := hb.nodup_current
  rw [hok.list, List.nodup_append', List.nodup_append'] at hnodup
  have hnoti : st.current s ∉ st.inserted := fun hi =>
    hnodup.2.2 hi (List.mem_append_right _ List.mem_cons_self)
  have hsame : st'.inserted = st.inserted := by rw [hinserted, List.erase_of_not_mem hnoti]
  have hcurrent : st'.current = st.current := by
    funext t
    exact congrArg (Ref.mk t) (congrFun htenancy t)
  have hfilter : (st.passed ++ [st.current s]).filter (· ∉ st.collected ++ [st.current s]) =
      st.passed.filter (· ∉ st.collected) := by
    rw [List.filter_append, List.filter_singleton]
    simp only [List.mem_append, List.mem_singleton, or_true, not_true_eq_false, decide_false,
      List.append_nil, cond_false]
    refine List.filter_congr fun r hr => ?_
    have hne : r ≠ st.current s := fun heq => hnotp (heq ▸ hr)
    simp [hne]
  refine ⟨tail, ?_⟩
  exact {
    split := by
      rw [hstart, hpassed, hok.split, List.append_assoc]
      rfl
    next := hnext
    nodup := hstart ▸ hok.nodup
    list := by
      have hnotk : st.current s ∉ st.passed.filter (· ∉ st.collected) := fun hk =>
        hnotp (List.mem_of_mem_filter hk)
      rw [hclose, hcurrent, hsame, hpassed, hcollected, hfilter,
        List.map_erase st.current_injective, hok.list, List.erase_append_right _ hnoti,
        List.erase_append_right _ hnotk, List.erase_cons_head]
    collected := by
      rw [hcollected, hpassed]
      exact hok.collected.append_right _
    ready := fun r hr hr' => by
      have hold := hok.ready r (List.mem_cons_of_mem _ hr) (hready ▸ hr')
      rw [hconn]
      show (Function.update st.conn s _ r.slot).registered = true
      by_cases hs : r.slot = s
      · rw [hs, Function.update_self]
        rwa [hs] at hold
      · rwa [Function.update_of_ne hs]
    found := fun r hr hr' hexp => by
      rw [hcollected]
      rw [hpassed] at hr
      rcases List.mem_append.mp hr with hr | hr
      · exact List.mem_append_left _ (hok.found r hr (hready ▸ hr') (hexpired ▸ hexp))
      · exact List.mem_append_right _ hr
    expired := fun r hr => by
      rw [hexpired]
      rw [hcollected] at hr
      rcases List.mem_append.mp hr with hr | hr
      · exact hok.expired r hr
      · obtain rfl := List.mem_singleton.mp hr
        exact hcollect.2.2.2
    adding := fun i q hi => by
      rw [hsame]
      exact hok.adding i q (hhandshake ▸ hi) }

end ScanOk

/-! ### Every step -/

structure ListInv (me : ℕ) (st : ListRun) : Prop where
  owned : ∃ own, ListOwned me own st
  scan : ∀ next, st.worker.saved = some next → ∃ rest, ScanOk st next rest

/-- What a step away from the worker leaves alone. -/
structure SameWorker (st st' : ListRun) : Prop where
  worker : st'.worker = st.worker
  garbage : st'.garbage = st.garbage
  start : st'.start = st.start
  passed : st'.passed = st.passed

theorem ListOwned.handoff_same (hinv : ListOwned me own st)
    (ht : ListRun.HandoffTransition me st h st') : SameWorker st st' := by
  have hthread := hinv.threads h
  cases ht with
  | unref r pc st₁ u hpc hunref =>
      rw [hpc] at hthread
      cases unref_move hinv.base hthread.2 (by simp [hthread.1]) hunref with
      | go | done => exact ⟨rfl, rfl, rfl, rfl⟩
  | _ => exact ⟨rfl, rfl, rfl, rfl⟩

theorem ScanOk.start (hinv : ListOwned me own st) (hfree : st.listLock = none)
    (expired : Ref → Bool) :
    ScanOk
      { st with
        listLock := some (.worker me)
        worker := .scan st.links.head
        expired := expired
        start := st.members.map st.current
        ready := (st.members.map st.current).filter fun r => (st.conn r.slot).registered
        passed := []
        collected := []
        inserted := [] }
      st.links.head (st.members.map st.current) where
  split := rfl
  next := by
    rw [hinv.base.list.head_eq, List.head?_map, Option.map_map]
    exact Option.map_id'.symm
  nodup := hinv.base.nodup_current
  list := rfl
  collected := List.Sublist.refl _
  ready r _ hr := (List.mem_filter.mp hr).2
  found := nofun
  expired := nofun
  adding i q hi := by
    have hok := hinv.threads i
    rw [show st.handshake i = .add q from hi] at hok
    cases hfree.symm.trans hok.2.2

theorem ScanOk.foreign (hb : ListBase me own st) (hok : ScanOk st next rest)
    (hown : own s = .free ∨ own s = .foreign) (hsame : SameScan st st')
    (hmembers : st'.members = st.members)
    (htenancy : ∀ t, t ≠ s → st'.tenancy t = st.tenancy t)
    (hconn : st'.conn = Function.update st.conn s c) (hhandshake : st'.handshake = st.handshake) :
    ScanOk st' next rest := by
  have hnot : s ∉ st.members := hb.not_mem (by rcases hown with h | h <;> simp [h])
  refine hok.frame hsame hmembers (fun t ht => htenancy t ?_) hconn (fun hmem => absurd hmem hnot)
    fun h r => by rw [hhandshake]; exact id
  rintro rfl
  exact hnot ht

namespace ListInv

theorem init (me : ℕ) : ListInv me ListRun.init := ⟨⟨_, .init me⟩, nofun⟩

theorem curr_mem (hinv : ListInv me st) (hpc : st.worker.saved = some (some s)) :
    s ∈ st.members := by
  obtain ⟨own, hown⟩ := hinv.owned
  obtain ⟨rest, hok⟩ := hinv.scan _ hpc
  obtain ⟨-, -, -, hmem⟩ := hok.visit hown.base
  exact hmem

theorem saved_of_scan (hpc : st.worker = .scan next) : st.worker.saved = some next := by
  rw [hpc]
  rfl

theorem scanStep (hinv : ListInv me st) (hown : ListOwned me own st)
    (ht : ListRun.ScanTransition me st st') (hsaved : st'.worker.saved = some next) :
    ∃ rest, ScanOk st' next rest := by
  have hb := hown.base
  cases ht with
  | scanEnd => cases hsaved
  | collect s hpc hcollect =>
      cases hsaved
      obtain ⟨rest, hok⟩ := hinv.scan _ (saved_of_scan hpc)
      exact hok.collect hb hcollect rfl rfl rfl rfl rfl rfl rfl rfl rfl rfl
  | bucketFull s hpc hcollect =>
      cases hsaved
      obtain ⟨rest, hok⟩ := hinv.scan _ (saved_of_scan hpc)
      exact hok.collect hb hcollect rfl rfl rfl rfl rfl rfl rfl rfl rfl rfl
  | skip s hpc hskip =>
      cases hsaved
      obtain ⟨rest, hok⟩ := hinv.scan _ (saved_of_scan hpc)
      exact hok.skip hb hskip
  | relock keep _ hpc | bucketEmpty _ keep _ hpc =>
      cases hsaved
      obtain ⟨rest, hok⟩ := hinv.scan next (by rw [hpc]; rfl)
      exact ⟨rest, hok.frame (s := 0) ⟨rfl, rfl, rfl, rfl, rfl, rfl⟩ rfl (fun _ _ => rfl)
        (Function.update_eq_self 0 st.conn).symm (fun _ => id) fun _ _ => id⟩
  | unref r tail pc saved st₁ u hpc hunref =>
      have hholds := hown.worker
      rw [hpc] at hholds
      obtain ⟨hr, hun⟩ := hholds.todo (r, pc) List.mem_cons_self
      have hold : st.worker.saved = some next := by
        rw [hpc, ← hsaved]
        cases u <;> cases saved <;> rfl
      obtain ⟨rest, hok⟩ := hinv.scan next hold
      refine ⟨rest, ?_⟩
      cases unref_move hb hun (by simp [hr]) hunref with
      | go c u hun hclosed hregistered =>
          exact hok.frame ⟨rfl, rfl, rfl, rfl, rfl, rfl⟩ rfl (fun _ _ => rfl) rfl
            (fun _ hreg => hregistered.trans hreg) fun _ _ => id
      | done =>
          exact hok.frame (s := 0) ⟨rfl, rfl, rfl, rfl, rfl, rfl⟩ rfl (fun _ _ => rfl)
            (Function.update_eq_self 0 st.conn).symm (fun _ => id) fun _ _ => id

theorem step (hinv : ListInv me st) {ev : ListEvent} (ht : ListRun.Transition me st ev st') :
    ListInv me st' := by
  obtain ⟨own, hown⟩ := hinv.owned
  have hb := hown.base
  refine ⟨hown.step (fun s hpc => hinv.curr_mem (saved_of_scan hpc)) ht, fun next hsaved => ?_⟩
  cases ht with
  | handoff h ht | handshake h ok ht =>
      rw [(hown.handoff_same ht).worker] at hsaved
      obtain ⟨rest, hok⟩ := hinv.scan next hsaved
      exact ⟨rest, hok.handoff hown ht⟩
  | epollWait | event | fatal | noScan => cases hsaved
  | scanStart expired hpc hfree =>
      cases hsaved
      exact ⟨_, .start hown hfree expired⟩
  | worker ht => exact hinv.scanStep hown ht hsaved
  | take s tail hfree =>
      obtain ⟨rest, hok⟩ := hinv.scan next hsaved
      have hs : own s = .free := hb.free.2 s (by rw [hfree]; exact List.mem_cons_self)
      exact ⟨rest, hok.foreign hb (Or.inl hs) ⟨rfl, rfl, rfl, rfl, rfl, rfl⟩ rfl
        (fun t ht => Function.update_of_ne ht ..) rfl rfl⟩
  | touch s c n p hforeign hpass =>
      obtain ⟨rest, hok⟩ := hinv.scan next hsaved
      exact ⟨rest, hok.foreign hb (Or.inr (hb.foreign s hforeign)) ⟨rfl, rfl, rfl, rfl, rfl, rfl⟩ rfl
        (fun _ _ => rfl) rfl rfl⟩
  | give s hforeign =>
      obtain ⟨rest, hok⟩ := hinv.scan next hsaved
      exact ⟨rest, hok.foreign hb (Or.inr (hb.foreign s hforeign)) ⟨rfl, rfl, rfl, rfl, rfl, rfl⟩ rfl
        (fun _ _ => rfl) (Function.update_eq_self s st.conn).symm rfl⟩

theorem of_run (h : ListInv me st) {evs : List ListEvent}
    (hrun : run (listStep me) st evs = some st') : ListInv me st' :=
  run_invariant (fun _ _ _ h hstep => h.step (ListRun.transition_of_step hstep)) h hrun

end ListInv

/-! ### What holds in every state -/

def ListRun.Scanning (st : ListRun) : Prop := st.worker.saved.isSome = true

instance (st : ListRun) : Decidable st.Scanning := inferInstanceAs (Decidable (_ = _))

structure ListSafe (me : ℕ) (st : ListRun) : Prop where
  list : st.links.IsList st.members
  /-- What is on the list is a connection of this worker that nobody unreferences. -/
  hung : ∀ s ∈ st.members, (st.conn s).Hung me s
  /-- The pointer that the scan goes on with is on the list. -/
  saved : ∀ s, st.worker.saved = some (some s) → s ∈ st.members
  /-- The scan takes out what it collects, and nothing else. -/
  kept : st.Scanning → st.members.map st.current =
    st.inserted ++ st.start.filter (· ∉ st.collected)
  once : st.Scanning → st.collected.Nodup ∧ st.collected ⊆ st.start
  expired : st.Scanning → ∀ r ∈ st.collected, st.expired r = true
  /-- At its end it has collected all that it was to find. -/
  complete : st.worker = .scan none →
    ∀ r ∈ st.start, r ∈ st.ready → (r ∈ st.collected ↔ st.expired r = true)

theorem ScanOk.kept (hok : ScanOk st next rest) :
    st.members.map st.current = st.inserted ++ st.start.filter (· ∉ st.collected) := by
  have hnodup := hok.nodup
  rw [hok.split, List.nodup_append'] at hnodup
  have hrest : rest.filter (· ∉ st.collected) = rest := by
    refine List.filter_eq_self.mpr fun r hr => decide_eq_true fun hmem => ?_
    exact hnodup.2.2 (hok.collected.subset hmem) hr
  rw [hok.list, hok.split, List.filter_append, hrest]

theorem ListInv.safe (hinv : ListInv me st) : ListSafe me st := by
  obtain ⟨own, hown⟩ := hinv.owned
  have hscan : st.Scanning → ∃ next rest, ScanOk st next rest := fun hs => by
    obtain ⟨next, hnext⟩ := Option.isSome_iff_exists.mp hs
    exact ⟨next, hinv.scan next hnext⟩
  refine ⟨hown.base.list, fun s hs => hown.base.hung hs, fun s hs => hinv.curr_mem hs,
    fun hs => ?_, fun hs => ?_, fun hs => ?_, fun hpc r hr hready => ?_⟩
  · obtain ⟨next, rest, hok⟩ := hscan hs
    exact hok.kept
  · obtain ⟨next, rest, hok⟩ := hscan hs
    have hpassed : st.passed.Sublist st.start := hok.split ▸ List.sublist_append_left _ _
    have hsub := hok.collected.trans hpassed
    exact ⟨hok.nodup.sublist hsub, hsub.subset⟩
  · obtain ⟨next, rest, hok⟩ := hscan hs
    exact hok.expired
  · obtain ⟨rest, hok⟩ := hinv.scan none (ListInv.saved_of_scan hpc)
    have hrest : rest = [] := by
      cases rest with
      | nil => rfl
      | cons q tail => cases hok.next
    have hsplit := hok.split
    rw [hrest, List.append_nil] at hsplit
    exact ⟨hok.expired r, hok.found r (hsplit ▸ hr) hready⟩

/-! ### What has expired

The scan looks at each connection once, so what has expired need not be settled before it gets
there. -/

namespace ListRun

variable {ev : ListEvent}

def withExpired (f : Ref → Bool) (st : ListRun) : ListRun := { st with expired := f }

@[simp] theorem withExpired_listLock (f : Ref → Bool) :
    (st.withExpired f).listLock = st.listLock := rfl

theorem collectable_expired {f : Ref → Bool} {s : ℕ}
    (hagree : f (st.current s) = st.expired (st.current s)) :
    (st.withExpired f).Collectable s ↔ st.Collectable s := by
  unfold Collectable
  rw [← hagree]
  rfl

theorem unrefStep_expired (f : Ref → Bool) (r : Ref) (pc : UnrefPc) :
    (st.withExpired f).unrefStep me r pc =
      (st.unrefStep me r pc).map fun p => (p.1.withExpired f, p.2) := by
  cases pc with
  | poison =>
      show ({ st with expired := f } : ListRun).unrefStep me r .poison = _
      simp only [unrefStep]
      by_cases hwidx : (st.conn r.slot).widx ≠ me
      · rw [if_pos hwidx, if_pos hwidx]
        rfl
      · rw [if_neg hwidx, if_neg hwidx]
        by_cases hfree : st.listLock = none
        · rw [if_pos hfree, if_pos hfree, Option.map_some]
          split <;> rfl
        · rw [if_neg hfree, if_neg hfree]
          rfl
  | call | exchange | release | push s => rfl

theorem unrefStep_same {r : Ref} {pc : UnrefPc} {st₁ : ListRun} {u : Option UnrefPc}
    (hstep : st.unrefStep me r pc = some (st₁, u)) :
    st₁.worker = st.worker ∧ st₁.passed = st.passed ∧ st₁.expired = st.expired := by
  cases pc with
  | poison =>
      simp only [unrefStep] at hstep
      split at hstep
      · cases hstep
        exact ⟨rfl, rfl, rfl⟩
      · split at hstep
        · cases hstep
          split <;> exact ⟨rfl, rfl, rfl⟩
        · cases hstep
  | call | exchange | release | push s =>
      cases hstep
      exact ⟨rfl, rfl, rfl⟩

theorem handshakeStep_expired (f : Ref → Bool) (h : ℕ) (ok : Bool) :
    (st.withExpired f).handshakeStep me h ok = (st.handshakeStep me h ok).map (withExpired f) := by
  unfold handshakeStep
  rw [show (st.withExpired f).handshake = st.handshake from rfl]
  cases st.handshake h with
  | idle | fill r | rollback r | register r => rfl
  | lock r =>
      by_cases hfree : st.listLock = none
      · simp only [withExpired_listLock, hfree, if_true]
        rfl
      · simp only [withExpired_listLock, hfree, if_false]
        rfl
  | add r => cases ok <;> rfl
  | unref r pc =>
      simp only [unrefStep_expired, Option.map_map]
      rfl

/-- The step of the worker comes out the same when the scan finds the same at its connection. -/
theorem workerStep_expired {f : Ref → Bool}
    (hagree : ∀ s, st.worker = .scan (some s) → f (st.current s) = st.expired (st.current s)) :
    (st.withExpired f).workerStep me = (st.workerStep me).map (withExpired f) := by
  unfold workerStep
  rw [show (st.withExpired f).worker = st.worker from rfl]
  cases hpc : st.worker with
  | events n => rfl
  | scan curr =>
      cases curr with
      | none => rfl
      | some s =>
          have hsame := collectable_expired (hagree s hpc)
          dsimp only
          by_cases hcollect : st.Collectable s
          · rw [if_pos hcollect, if_pos (hsame.mpr hcollect)]
            by_cases hroom : st.garbage.length < maxEvents
            · rw [if_pos hroom]
              exact if_pos hroom
            · rw [if_neg hroom]
              exact if_neg hroom
          · rw [if_neg hcollect, if_neg (mt hsame.mp hcollect)]
            rfl
  | unref rest pc saved =>
      cases rest with
      | nil => cases saved <;> rfl
      | cons r rest =>
          simp only [unrefStep_expired, Option.map_map]
          rfl
  | relock keep next =>
      by_cases hfree : st.listLock = none
      · simp only [withExpired_listLock, hfree, if_true]
        rfl
      · simp only [withExpired_listLock, hfree, if_false]
        rfl

theorem listStep_expired {f : Ref → Bool} (hstart : ∀ g, ev ≠ .scanStart g)
    (hagree : ev = .worker →
      ∀ s, st.worker = .scan (some s) → f (st.current s) = st.expired (st.current s)) :
    listStep me (st.withExpired f) ev = (listStep me st ev).map (withExpired f) := by
  show listStep me { st with expired := f } ev = _
  cases ev with
  | handshake h ok => exact handshakeStep_expired f h ok
  | worker => exact workerStep_expired (hagree rfl)
  | scanStart g => exact absurd rfl (hstart g)
  | handoff h =>
      simp only [listStep, handoffStep]
      by_cases hidle : st.handshake h = .idle
      · simp only [hidle, if_true]
        split <;> rfl
      · simp only [hidle, if_false]
        rfl
  | epollWait n =>
      simp only [listStep]
      split
      · split <;> rfl
      · rfl
  | event fatal =>
      simp only [listStep, eventStep]
      split
      · rfl
      · split <;> rfl
      · rfl
  | noScan =>
      simp only [listStep]
      split <;> rfl
  | take =>
      simp only [listStep]
      split <;> rfl
  | touch s c next prev | give s =>
      simp only [listStep]
      split <;> rfl

/-- What a step other than the first of a scan needs of the state before it. -/
theorem Transition.scanning (ht : Transition me st ev st') (hstart : ∀ g, ev ≠ .scanStart g)
    (hscan : st'.Scanning) : st.Scanning ∧ st'.expired = st.expired ∧ st.passed ⊆ st'.passed ∧
      (ev = .worker → ∀ s, st.worker = .scan (some s) → st.current s ∈ st'.passed) := by
  have hthread : ∀ {h st'}, HandoffTransition me st h st' →
      st'.worker = st.worker ∧ st'.passed = st.passed ∧ st'.expired = st.expired := by
    rintro h st' ⟨⟩
    case unref r pc st₁ u hpc hunref =>
      obtain ⟨hworker, hpassed, hexpired⟩ := unrefStep_same hunref
      exact ⟨hworker, hpassed, hexpired⟩
    all_goals exact ⟨rfl, rfl, rfl⟩
  have hsame : st'.worker = st.worker ∧ st'.passed = st.passed ∧ st'.expired = st.expired →
      ev ≠ .worker → st.Scanning ∧ st'.expired = st.expired ∧ st.passed ⊆ st'.passed ∧
        (ev = .worker → ∀ s, st.worker = .scan (some s) → st.current s ∈ st'.passed) := by
    rintro ⟨hworker, hpassed, hexpired⟩ hev
    refine ⟨?_, hexpired, hpassed ▸ List.Subset.refl _, fun h => absurd h hev⟩
    rwa [Scanning, hworker] at hscan
  cases ht with
  | handoff h ht => exact hsame (hthread ht) (by rintro ⟨⟩)
  | handshake h ok ht => exact hsame (hthread ht) (by rintro ⟨⟩)
  | take | touch | give => exact hsame ⟨rfl, rfl, rfl⟩ (by rintro ⟨⟩)
  | epollWait | event | fatal | noScan => cases hscan
  | scanStart expired => exact absurd rfl (hstart expired)
  | worker ht =>
      have hcons : ∀ {r : Ref}, r ∈ st.passed ++ [r] := List.mem_append_right _ List.mem_cons_self
      cases ht with
      | scanEnd => cases hscan
      | collect s hpc | bucketFull s hpc | skip s hpc =>
          refine ⟨?_, rfl, List.subset_append_left _ _, fun _ t ht => ?_⟩
          · rw [Scanning, hpc]
            rfl
          · cases hpc.symm.trans ht
            exact hcons
      | relock keep next hpc | bucketEmpty pc keep next hpc =>
          refine ⟨?_, rfl, List.Subset.refl _, fun _ t ht => ?_⟩
          · rw [Scanning, hpc]
            rfl
          · cases hpc.symm.trans ht
      | unref r rest pc saved st₁ u hpc hunref =>
          obtain ⟨-, hpassed, hexpired⟩ := unrefStep_same hunref
          refine ⟨?_, hexpired, hpassed ▸ List.Subset.refl _, fun _ t ht => ?_⟩
          · rw [Scanning] at hscan ⊢
            rw [hpc]
            cases u <;> cases saved <;> exact hscan
          · cases hpc.symm.trans ht

/-- A scan may find out what has expired as it goes on. -/
theorem foreseen {f : Ref → Bool} (hreach : Reaches (listStep me) init st) (hscan : st.Scanning)
    (hagree : ∀ r ∈ st.passed, f r = st.expired r) :
    Reaches (listStep me) init (st.withExpired f) := by
  obtain ⟨evs, hrun⟩ := hreach
  have hall := run_invariant (P := fun st => Reaches (listStep me) init st ∧ ∀ f : Ref → Bool,
    st.Scanning → (∀ r ∈ st.passed, f r = st.expired r) →
      Reaches (listStep me) init (st.withExpired f)) ?_ ?_ hrun
  · exact hall.2 f hscan hagree
  · rintro st₁ ev st₂ ⟨hreach, hforeseen⟩ hstep
    refine ⟨hreach.trans (.single hstep), fun f hscan hagree => ?_⟩
    by_cases hstart : ∃ g, ev = .scanStart g
    · obtain ⟨g, rfl⟩ := hstart
      simp only [listStep, scanStartStep] at hstep
      split at hstep
      case isTrue hready =>
        cases hstep
        exact hreach.trans (.single (a := .scanStart f) (if_pos hready))
      case isFalse => cases hstep
    · have hstart' : ∀ g, ev ≠ .scanStart g := fun g hg => hstart ⟨g, hg⟩
      obtain ⟨hscan', hexpired, hpassed, hcurrent⟩ :=
        (transition_of_step hstep).scanning hstart' hscan
      have hbefore : ∀ r ∈ st₁.passed, f r = st₁.expired r := fun r hr => by
        rw [hagree r (hpassed hr), hexpired]
      refine (hforeseen f hscan' hbefore).trans (.single (a := ev) ?_)
      rw [listStep_expired hstart' fun hev s hpc => ?_, hstep]
      · rfl
      · rw [hagree _ (hcurrent hev s hpc), hexpired]
  · exact ⟨.refl _, fun f hscan => by cases hscan⟩

end ListRun

end FiveGProxy
