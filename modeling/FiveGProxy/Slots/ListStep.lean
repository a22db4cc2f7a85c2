import FiveGProxy.Slots.ListOwner

/-!
# Every step keeps the holders

A slot goes from the stack of free slots to a thread, from the thread to the list, from the list to
the worker, or back to the thread when `epoll_ctl` has failed, and from there to the stack again.
-/

namespace FiveGProxy

open Steps

variable {me : ℕ} {own : ℕ → Holder} {st st' : ListRun} {s₀ h : ℕ} {c : Conn} {o : Holder} {r : Ref}

/-! ### The shared state -/

namespace ListBase

theorem not_mem (hb : ListBase me own st) (hnot : ¬(own s₀).Linked) : s₀ ∉ st.members :=
  fun hmem => hnot ((hb.members s₀).mp hmem)

theorem acquire (hb : ListBase me own st) (ht : Touches own st st' s₀ c)
    (hlinks : st'.links = st.links) (hmembers : st'.members = st.members)
    (hfree : st.freeSlots = s₀ :: st'.freeSlots) (hslot : SlotKept me s₀ o c) (ho : ¬o.Linked)
    (hforeign : ∀ s, s ≠ s₀ → st'.foreign s = st.foreign s)
    (hself : st'.foreign s₀ = true → o = .foreign) : ListBase me (Function.update own s₀ o) st' := by
  have hown : own s₀ = .free := hb.free.2 s₀ (by rw [hfree]; exact List.mem_cons_self)
  have hnodup := hb.free.1
  rw [hfree, List.nodup_cons] at hnodup
  refine hb.touch ht (by rw [hlinks, hmembers]; exact hb.list) (fun s => ?_) hslot
    ⟨hnodup.2, fun s hs => ?_⟩ fun s hs => ?_
  · rw [hmembers, hb.members]
    by_cases hs : s = s₀
    · subst hs
      simp [hown, ho]
    · rw [Function.update_of_ne hs]
  · have hne : s ≠ s₀ := by
      rintro rfl
      exact hnodup.1 hs
    rw [Function.update_of_ne hne]
    exact hb.free.2 s (by rw [hfree]; exact List.mem_cons_of_mem _ hs)
  · by_cases hne : s = s₀
    · subst hne
      rw [Function.update_self, hself hs]
    · rw [Function.update_of_ne hne]
      exact hb.foreign s (hforeign s hne ▸ hs)

theorem release (hb : ListBase me own st) (hconn : st'.conn = st.conn) (hlinks : st'.links = st.links)
    (hmembers : st'.members = st.members) (hfree : st'.freeSlots = s₀ :: st.freeSlots)
    (hslot : (st.conn s₀).slotState = false) (hnot : own s₀ ≠ .free) (hlinked : ¬(own s₀).Linked)
    (hforeign : ∀ s, s ≠ s₀ → st'.foreign s = st.foreign s) (hself : st'.foreign s₀ = false) :
    ListBase me (Function.update own s₀ .free) st' where
  list := by
    rw [hlinks, hmembers]
    exact hb.list
  members s := by
    rw [hmembers, hb.members]
    by_cases hs : s = s₀
    · subst hs
      simp [hlinked]
    · rw [Function.update_of_ne hs]
  slots s := by
    rw [hconn]
    by_cases hs : s = s₀
    · subst hs
      rw [Function.update_self]
      exact hslot
    · rw [Function.update_of_ne hs]
      exact hb.slots s
  free := by
    rw [hfree]
    refine ⟨List.nodup_cons.mpr ⟨fun hmem => hnot (hb.free.2 s₀ hmem), hb.free.1⟩, fun s hs => ?_⟩
    by_cases hne : s = s₀
    · subst hne
      rw [Function.update_self]
    · rw [Function.update_of_ne hne]
      exact hb.free.2 s ((List.mem_cons.mp hs).resolve_left hne)
  foreign s hs := by
    by_cases hne : s = s₀
    · subst hne
      rw [hself] at hs
      cases hs
    · rw [Function.update_of_ne hne]
      exact hb.foreign s (hforeign s hne ▸ hs)

theorem relink (hb : ListBase me own st) (ht : Touches own st st' s₀ c)
    (hlist : st'.links.IsList st'.members)
    (hmembers : ∀ s, s ∈ st'.members ↔ if s = s₀ then o.Linked else s ∈ st.members)
    (hslot : SlotKept me s₀ o c) (hfree : st'.freeSlots = st.freeSlots) (hnot : own s₀ ≠ .free)
    (hforeign : st'.foreign = st.foreign) (hown : own s₀ ≠ .foreign) :
    ListBase me (Function.update own s₀ o) st' := by
  refine hb.touch ht hlist (fun s => ?_) hslot ⟨hfree ▸ hb.free.1, fun s hs => ?_⟩ fun s hs => ?_
  · rw [hmembers]
    by_cases hs : s = s₀
    · subst hs
      rw [if_pos rfl, Function.update_self]
    · rw [if_neg hs, Function.update_of_ne hs, hb.members]
  · rw [hfree] at hs
    have hfr := hb.free.2 s hs
    have hne : s ≠ s₀ := fun heq => hnot (heq ▸ hfr)
    rw [Function.update_of_ne hne, hfr]
  · rw [hforeign] at hs
    have hfr := hb.foreign s hs
    have hne : s ≠ s₀ := fun heq => hown (heq ▸ hfr)
    rw [Function.update_of_ne hne, hfr]

end ListBase

theorem Touches.write (hnot : st'.links = st.links.write s₀ none none ∨ st'.links = st.links)
    (hconn : st'.conn = Function.update st.conn s₀ c) (htenancy : st'.tenancy = st.tenancy) :
    Touches own st st' s₀ c where
  conn := hconn
  tenancy s _ := congrFun htenancy s
  alone s hs _ halone := by
    rcases hnot with h | h
    · rw [h]
      exact halone.write hs ..
    · rwa [h]

theorem touches_self (s₀ : ℕ) (hconn : st'.conn = st.conn) (htenancy : st'.tenancy = st.tenancy)
    (hlinks : st'.links = st.links) : Touches own st st' s₀ (st.conn s₀) :=
  .write (Or.inr hlinks) (hconn.trans (Function.update_eq_self s₀ st.conn).symm) htenancy

/-- `closed = 1` and `list_remove_locked`. -/
theorem touches_close (hb : ListBase me own st) (hs : (own s₀).Linked)
    (hconn : st'.conn = (st.close s₀).conn) (htenancy : st'.tenancy = st.tenancy)
    (hlinks : st'.links = st.links.unlink s₀) :
    Touches own st st' s₀ { st.conn s₀ with closed := true } where
  conn := hconn
  tenancy s _ := congrFun htenancy s
  alone s _ hlinked halone := by
    rw [hlinks]
    exact hb.list.alone_unlink_of_not_mem ((hb.members s₀).mpr hs) (hb.not_mem hlinked) halone

theorem ListBase.close (hb : ListBase me own st) (hs : (own s₀).Linked)
    (hconn : st'.conn = (st.close s₀).conn) (htenancy : st'.tenancy = st.tenancy)
    (hlinks : st'.links = st.links.unlink s₀) (hmembers : st'.members = st.members.erase s₀)
    (hfree : st'.freeSlots = st.freeSlots) (hforeign : st'.foreign = st.foreign) (ho : ¬o.Linked)
    (hslot : SlotKept me s₀ o { st.conn s₀ with closed := true }) :
    ListBase me (Function.update own s₀ o) st' := by
  have hmem := (hb.members s₀).mpr hs
  refine hb.relink (touches_close hb hs hconn htenancy hlinks) ?_ (fun s => ?_) hslot hfree ?_
    hforeign ?_
  · rw [hlinks, hmembers]
    exact hb.list.unlink_of_mem hmem
  · rw [hmembers, hb.list.nodup.mem_erase_iff]
    by_cases hne : s = s₀ <;> simp [hne, ho]
  · intro heq
    simp [heq] at hs
  · intro heq
    simp [heq] at hs

theorem Conn.Hung.unrefOk (hhung : (st.conn s₀).Hung me s₀) (hconn : st'.conn s₀ = c)
    (hc : c = { st.conn s₀ with closed := true }) (hr : st'.tenancy s₀ = r.tenancy)
    (hslot : r.slot = s₀) (halone : st'.links.Alone s₀) : UnrefOk me st' r .call := by
  subst hc hslot
  exact {
    tenancy := hr
    alone := halone
    widx := by rw [hconn]; exact hhung.widx
    slot := by rw [hconn]; exact hhung.slot
    refs := fun _ => by rw [hconn]; exact hhung.refs
    finalized := fun _ => by rw [hconn]; exact hhung.finalized
    push := by simp }

/-! ### The threads -/

theorem filled_hung (me s : ℕ) (c : Conn) :
    (ListRun.filled me s c).Hung me s ∧ (ListRun.filled me s c).registered = false :=
  ⟨⟨rfl, rfl, rfl, rfl, rfl, rfl, rfl⟩, rfl⟩

theorem ListOwned.not_locked (hinv : ListOwned me own st)
    (hpc : ∀ r, st.handshake h ≠ .add r ∧ st.handshake h ≠ .rollback r) :
    st.listLock ≠ some (.handshake h) := by
  intro hlock
  obtain ⟨r, hr | hr⟩ := hinv.lock _ hlock
  · exact (hpc r).1 hr
  · exact (hpc r).2 hr

theorem Holder.apart {i : ℕ} (hown : o = .thread h ∨ o = .pending h) (hi : i ≠ h) : ¬o.OfThread i := by
  rcases hown with rfl | rfl <;> simp [Holder.OfThread, Ne.symm hi]

/-- The lock goes from thread `h` to nobody. -/
theorem lock_released {a : Agent} (hlock : st.listLock = some (.handshake h))
    (hfree : st'.listLock = none) (ha : a ≠ .handshake h) :
    st'.listLock = some a ↔ st.listLock = some a := by
  rw [hlock, hfree]
  simp [Ne.symm ha]

theorem ListOwned.threadMove {pc : HandoffPc} (hinv : ListOwned me own st)
    (ht : Touches own st st' s₀ c) (hlist : st'.links.IsList st'.members)
    (hmembers : st'.members = st.members) (hslot : SlotKept me s₀ (own s₀) c)
    (hfree : st'.freeSlots = st.freeSlots) (hforeign : st'.foreign = st.foreign)
    (hown : own s₀ = .thread h ∨ own s₀ = .pending h) (hworker : st'.worker = st.worker)
    (hgarbage : st'.garbage = st.garbage)
    (hhandshake : st'.handshake = Function.update st.handshake h pc) (hok : HandoffOk me own st' h pc)
    (hlock : ∀ a, a ≠ .handshake h → (st'.listLock = some a ↔ st.listLock = some a))
    (hmine : st'.listLock = some (.handshake h) → ∃ r, pc = .add r ∨ pc = .rollback r) :
    ListOwned me own st' := by
  have hbase := hinv.base.move ht hlist hmembers hslot Iff.rfl hfree
    (by rcases hown with h | h <;> simp [h]) hforeign id
  have hself : Function.update own s₀ (own s₀) = own := Function.update_eq_self s₀ own
  have hnot : own s₀ ≠ .worker := by rcases hown with h | h <;> simp [h]
  have hstep := hinv.threadStep ht hbase hnot (fun i hi => Holder.apart hown hi) hworker hgarbage
    hhandshake (hself.symm ▸ hok) hlock hmine
  rwa [hself] at hstep

namespace ListOwned

variable {ok : Bool}

theorem acquire (hinv : ListOwned me own st) {s : ℕ} {rest : List ℕ} (hpc : st.handshake h = .idle)
    (hfree : st.freeSlots = s :: rest) :
    ListOwned me (Function.update own s (.thread h))
      { (st.setConn s { st.conn s with gen := (st.conn s).gen + 1 }).setHandshake h
          (.fill ⟨s, st.tenancy s + 1⟩) with
        freeSlots := rest
        tenancy := Function.update st.tenancy s (st.tenancy s + 1) } := by
  have hb := hinv.base
  have hown : own s = .free := hb.free.2 s (by rw [hfree]; exact List.mem_cons_self)
  have hstate : (st.conn s).slotState = false := by
    have hslot := hb.slots s
    rwa [hown] at hslot
  have htouch : Touches own st
      { (st.setConn s { st.conn s with gen := (st.conn s).gen + 1 }).setHandshake h
          (.fill ⟨s, st.tenancy s + 1⟩) with
        freeSlots := rest
        tenancy := Function.update st.tenancy s (st.tenancy s + 1) } s
      { st.conn s with gen := (st.conn s).gen + 1 } :=
    ⟨rfl, fun t ht => Function.update_of_ne ht .., fun _ _ _ halone => halone⟩
  refine hinv.threadStep htouch ?_ (by simp [hown]) (fun i _ => by simp [hown, Holder.OfThread])
    rfl rfl rfl ?_ (fun a _ => Iff.rfl) fun hlock => ?_
  · refine hb.acquire htouch rfl rfl hfree (Or.inl hstate) (by simp) (fun _ _ => rfl) fun hf => ?_
    cases hown.symm.trans (hb.foreign s hf)
  · refine ⟨Function.update_self .., Function.update_self .., ?_⟩
    show (Function.update st.conn s _ s).slotState = false
    rw [Function.update_self]
    exact hstate
  · exact absurd hlock (hinv.not_locked (by simp [hpc]))

theorem fill (hinv : ListOwned me own st) (hpc : st.handshake h = .fill r) :
    ListOwned me own
      { (st.setConn r.slot (ListRun.filled me r.slot (st.conn r.slot))).setHandshake h
          (if ok then .lock r else .unref r .call) with
        links := st.links.write r.slot none none } := by
  have hb := hinv.base
  have hok := hinv.threads h
  rw [hpc] at hok
  obtain ⟨hown, hten, -⟩ := hok
  obtain ⟨hhung, hreg⟩ := filled_hung me r.slot (st.conn r.slot)
  have hnot : r.slot ∉ st.members := hb.not_mem (by simp [hown])
  refine hinv.threadMove (.write (Or.inl rfl) rfl rfl) (hb.list.write hnot ..) rfl
    (by rw [hown]; exact Or.inr hreg) rfl rfl (Or.inl hown) rfl rfl rfl ?_ (fun a _ => Iff.rfl)
    fun hlock => ?_
  · have hconn : Function.update st.conn r.slot (ListRun.filled me r.slot (st.conn r.slot)) r.slot =
        ListRun.filled me r.slot (st.conn r.slot) := Function.update_self ..
    have halone := Links.alone_write st.links r.slot
    cases ok with
    | true =>
        refine ⟨hown, hten, halone, ?_, ?_⟩
        · show (Function.update st.conn r.slot _ r.slot).Hung me r.slot
          rwa [hconn]
        · show (Function.update st.conn r.slot _ r.slot).registered = false
          rwa [hconn]
    | false =>
        refine ⟨hown, hten, halone, ?_, ?_, fun _ => ?_, fun _ => ?_, by simp⟩
        · show (Function.update st.conn r.slot _ r.slot).widx = me
          rw [hconn, hhung.widx]
        · show (Function.update st.conn r.slot _ r.slot).slot = r.slot
          rw [hconn, hhung.slot]
        · show (Function.update st.conn r.slot _ r.slot).refs = 1
          rw [hconn, hhung.refs]
        · show (Function.update st.conn r.slot _ r.slot).finalized = false
          rw [hconn, hhung.finalized]
  · exact absurd hlock (hinv.not_locked (by simp [hpc]))

theorem lockAdd (hinv : ListOwned me own st) (hpc : st.handshake h = .lock r)
    (hfree : st.listLock = none) :
    ListOwned me (Function.update own r.slot (.pending h))
      { (st.listAddLocked r).setHandshake h (.add r) with listLock := some (.handshake h) } := by
  have hb := hinv.base
  have hok := hinv.threads h
  rw [hpc] at hok
  obtain ⟨hown, hten, -, hhung, hreg⟩ := hok
  have hnot : r.slot ∉ st.members := hb.not_mem (by simp [hown])
  have htouch : Touches own st
      { (st.listAddLocked r).setHandshake h (.add r) with listLock := some (.handshake h) } r.slot
      (st.conn r.slot) :=
    ⟨(Function.update_eq_self r.slot st.conn).symm, fun _ _ => rfl, fun s hs hlinked halone =>
      hb.list.alone_pushFront hs (hb.not_mem hlinked) halone⟩
  refine hinv.threadStep htouch ?_ (by simp [hown]) (fun i hi => Holder.apart (Or.inl hown) hi)
    rfl rfl rfl ⟨Function.update_self .., hten, rfl⟩ (fun a ha => ?_) fun _ => ⟨r, Or.inl rfl⟩
  · refine hb.relink htouch (hb.list.pushFront hnot) (fun s => ?_) ⟨hhung, hreg⟩ rfl (by simp [hown])
      rfl (by simp [hown])
    show s ∈ r.slot :: st.members ↔ _
    by_cases hs : s = r.slot <;> simp [hs]
  · show some (.handshake h) = some a ↔ _
    rw [hfree]
    simp [Ne.symm ha]

theorem added (hinv : ListOwned me own st) (hpc : st.handshake h = .add r) :
    ListOwned me own { st.setHandshake h (.register r) with listLock := none } := by
  have hb := hinv.base
  have hok := hinv.threads h
  rw [hpc] at hok
  obtain ⟨hown, hten, hlock⟩ := hok
  exact hinv.threadMove (touches_self r.slot rfl rfl rfl) hb.list rfl (hb.slots r.slot) rfl rfl
    (Or.inr hown) rfl rfl rfl ⟨hown, hten⟩ (fun a ha => lock_released hlock rfl ha) nofun

theorem addFailed (hinv : ListOwned me own st) (hpc : st.handshake h = .add r) :
    ListOwned me (Function.update own r.slot (.thread h))
      ((st.close r.slot).setHandshake h (.rollback r)) := by
  have hb := hinv.base
  have hok := hinv.threads h
  rw [hpc] at hok
  obtain ⟨hown, hten, hlock⟩ := hok
  have hlinked : (own r.slot).Linked := by simp [hown]
  have hslot := hb.slots r.slot
  rw [hown] at hslot
  refine hinv.threadStep (touches_close hb hlinked rfl rfl rfl) ?_ (by simp [hown])
    (fun i hi => Holder.apart (Or.inr hown) hi) rfl rfl rfl ?_ (fun a _ => Iff.rfl)
    fun _ => ⟨r, Or.inr rfl⟩
  · exact hb.close hlinked rfl rfl rfl rfl rfl rfl (by simp) (Or.inr hslot.2)
  · refine ⟨Function.update_self .., ?_, hlock⟩
    exact hslot.1.unrefOk (Function.update_self ..) rfl hten rfl (Links.alone_unlink ..)

theorem rollback (hinv : ListOwned me own st) (hpc : st.handshake h = .rollback r) :
    ListOwned me own { st.setHandshake h (.unref r .call) with listLock := none } := by
  have hb := hinv.base
  have hok := hinv.threads h
  rw [hpc] at hok
  obtain ⟨hown, hun, hlock⟩ := hok
  exact hinv.threadMove (touches_self r.slot rfl rfl rfl) hb.list rfl (hb.slots r.slot) rfl rfl
    (Or.inl hown) rfl rfl rfl ⟨hown, hun.frame ⟨rfl, rfl, id⟩⟩ (fun a ha => lock_released hlock rfl ha) nofun

theorem register (hinv : ListOwned me own st) (hpc : st.handshake h = .register r) :
    ListOwned me (Function.update own r.slot .listed)
      ((st.setConn r.slot { st.conn r.slot with registered := true }).setHandshake h .idle) := by
  have hb := hinv.base
  have hok := hinv.threads h
  rw [hpc] at hok
  obtain ⟨hown, -⟩ := hok
  have hslot := hb.slots r.slot
  rw [hown] at hslot
  have hhung : Conn.Hung me r.slot { st.conn r.slot with registered := true } := { hslot.1 with }
  have htouch : Touches own st
      ((st.setConn r.slot { st.conn r.slot with registered := true }).setHandshake h .idle) r.slot
      { st.conn r.slot with registered := true } := .write (Or.inr rfl) rfl rfl
  refine hinv.threadStep htouch ?_ (by simp [hown]) (fun i hi => Holder.apart (Or.inr hown) hi)
    rfl rfl rfl trivial (fun a _ => Iff.rfl) fun hlock => ?_
  · exact hb.move htouch hb.list rfl ⟨hhung, rfl⟩ (by simp [hown]) rfl (by simp [hown]) rfl
      (by simp [hown])
  · exact absurd hlock (hinv.not_locked (by simp [hpc]))

theorem threadUnref (hinv : ListOwned me own st) {pc : UnrefPc} {st₁ : ListRun} {u : Option UnrefPc}
    (hpc : st.handshake h = .unref r pc) (hunref : st.unrefStep me r pc = some (st₁, u)) :
    ∃ own', ListOwned me own' (st₁.setHandshake h (ListRun.threadUnref r u)) := by
  have hb := hinv.base
  have hok := hinv.threads h
  rw [hpc] at hok
  obtain ⟨hown, hun⟩ := hok
  have hslot := hb.slots r.slot
  rw [hown] at hslot
  have hlock : st.listLock ≠ some (.handshake h) := hinv.not_locked (by simp [hpc])
  cases unref_move hb hun (by simp [hown]) hunref with
  | go c u hok hclosed hregistered hstate =>
      refine ⟨own, hinv.threadMove (.write (Or.inr rfl) rfl rfl) hb.list rfl ?_ rfl rfl (Or.inl hown)
        rfl rfl rfl ⟨hown, hok.frame ⟨rfl, rfl, id⟩⟩ (fun a _ => Iff.rfl)
        fun hl => absurd hl hlock⟩
      rw [hown]
      exact hslot.imp hstate fun hreg => hregistered.trans hreg
  | done hstate =>
      have htouch : Touches own st
          (ListRun.setHandshake { st with freeSlots := r.slot :: st.freeSlots } h .idle) r.slot
          (st.conn r.slot) :=
        .write (Or.inr rfl) (Function.update_eq_self r.slot st.conn).symm rfl
      refine ⟨_, hinv.threadStep (o := .free) htouch ?_ (by simp [hown])
        (fun i hi => Holder.apart (Or.inl hown) hi) rfl rfl rfl trivial (fun a _ => Iff.rfl)
        fun hl => absurd hl hlock⟩
      refine hb.release rfl rfl rfl rfl hstate (by simp [hown]) (by simp [hown]) (fun _ _ => rfl) ?_
      exact eq_false_of_ne_true fun hf => by cases hown.symm.trans (hb.foreign _ hf)

theorem handoff (hinv : ListOwned me own st) (ht : ListRun.HandoffTransition me st h st') :
    ∃ own', ListOwned me own' st' := by
  cases ht with
  | refused => exact ⟨own, hinv⟩
  | acquire s rest hpc hfree => exact ⟨_, hinv.acquire hpc hfree⟩
  | fill r ok hpc => exact ⟨own, hinv.fill hpc⟩
  | lock r hpc hfree => exact ⟨_, hinv.lockAdd hpc hfree⟩
  | added r hpc => exact ⟨own, hinv.added hpc⟩
  | addFailed r hpc => exact ⟨_, hinv.addFailed hpc⟩
  | rollback r hpc => exact ⟨own, hinv.rollback hpc⟩
  | register r hpc => exact ⟨_, hinv.register hpc⟩
  | unref r pc st₁ u hpc hunref => exact hinv.threadUnref hpc hunref

end ListOwned

/-! ### The worker -/

theorem ScanPc.todo_unref (l : List Ref) (saved : Option (Ref × Option ℕ)) (garbage : List Ref) :
    (ScanPc.unref l .call saved).todo garbage =
      (l ++ saved.toList.map Prod.fst).map (·, UnrefPc.call) := by
  cases l with
  | nil => cases saved <;> rfl
  | cons r rest => rfl

/-- The worker goes on with what it had to unreference, or with less. -/
theorem WorkerHolds.next {pc pc' : ScanPc} {g g' : List Ref} (hok : WorkerHolds me own st pc g)
    (hsame : SlotsAlike st st') (hsub : (pc'.todo g').Sublist (pc.todo g))
    (hlock : pc'.Traversing → st'.listLock = some (.worker me)) : WorkerHolds me own st' pc' g' where
  nodup := hok.nodup.sublist (hsub.map _)
  todo p hp := by
    obtain ⟨hown, hun⟩ := hok.todo p (hsub.subset hp)
    exact ⟨hown, hun.frame (.of_eq hsame.conn hsame.tenancy hsame.links _)⟩
  lock := hlock

/-- Only a connection on the list that is registered passes the check of an event. -/
theorem ListBase.passes (hb : ListBase me own st) (hpass : ListRun.Passes me (st.conn s₀)) :
    own s₀ = .listed := by
  obtain ⟨hstate, -, -, -, hclosed, hreg⟩ := Engine.checkSlot_process hpass
  simp only [Conn.snapshot] at hstate hclosed hreg
  have hslot := hb.slots s₀
  cases hown : own s₀ <;> rw [hown] at hslot
  case free => cases (hslot : (st.conn s₀).slotState = false).symm.trans hstate
  case foreign => exact absurd hpass hslot
  case thread =>
    rcases hslot with hs | hr
    · cases hs.symm.trans hstate
    · cases hr.symm.trans hreg
  case pending => cases hslot.2.symm.trans hreg
  case worker => cases (hslot : (st.conn s₀).closed = true).symm.trans hclosed

theorem ListBase.collectable (hb : ListBase me own st) (hmem : s₀ ∈ st.members)
    (hcollect : st.Collectable s₀) : own s₀ = .listed := by
  have hlinked := (hb.members s₀).mp hmem
  have hslot := hb.slots s₀
  cases hown : own s₀ <;> rw [hown] at hslot hlinked
  case pending => cases hslot.2.symm.trans hcollect.2.2.1
  all_goals exact absurd hlinked (by simp)

namespace ListOwned

theorem not_traversing (hinv : ListOwned me own st) (hpc : ¬st.worker.Traversing) (w : ℕ) :
    st.listLock ≠ some (.worker w) := fun hlock => hpc (hinv.lock _ hlock).2

theorem workerClose (hinv : ListOwned me own st) (hown : own s₀ = .listed)
    (hconn : st'.conn = (st.close s₀).conn) (htenancy : st'.tenancy = st.tenancy)
    (hlinks : st'.links = st.links.unlink s₀) (hmembers : st'.members = st.members.erase s₀)
    (hfree : st'.freeSlots = st.freeSlots) (hforeign : st'.foreign = st.foreign)
    (hhandshake : st'.handshake = st.handshake)
    (htodo : st'.worker.todo st'.garbage = st.worker.todo st.garbage ++ [(st.current s₀, .call)])
    (htraversing : st'.worker.Traversing → st'.listLock = some (.worker me))
    (hlock : ∀ i, st'.listLock = some (.handshake i) ↔ st.listLock = some (.handshake i))
    (hmine : ∀ w, st'.listLock = some (.worker w) → w = me ∧ st'.worker.Traversing) :
    ListOwned me (Function.update own s₀ .worker) st' := by
  have hb := hinv.base
  have hlinked : (own s₀).Linked := by simp [hown]
  have hslot := hb.slots s₀
  rw [hown] at hslot
  have htouch := touches_close hb hlinked hconn htenancy hlinks
  have hself : UnrefOk me st' (st.current s₀) .call := by
    refine hslot.1.unrefOk ?_ rfl (congrFun htenancy s₀) rfl (hlinks ▸ Links.alone_unlink ..)
    rw [hconn]
    exact Function.update_self ..
  have hne : ∀ p ∈ st.worker.todo st.garbage, p.1.slot ≠ s₀ := by
    intro p hp heq
    have hp' := (hinv.worker.todo p hp).1
    rw [heq, hown] at hp'
    cases hp'
  refine hinv.workerStep htouch ?_ (by simp [hown, Holder.OfThread]) hhandshake ?_ hlock hmine
  · exact hb.close hlinked hconn htenancy hlinks hmembers hfree hforeign (by simp) rfl
  · refine ⟨?_, fun p hp => ?_, htraversing⟩
    · rw [htodo, List.map_append]
      refine List.nodup_append'.mpr ⟨hinv.worker.nodup, List.nodup_singleton _, ?_⟩
      rw [List.map_singleton, List.disjoint_singleton]
      intro hmem
      obtain ⟨p, hp, heq⟩ := List.mem_map.mp hmem
      exact hne p hp heq
    · rw [htodo] at hp
      rcases List.mem_append.mp hp with hp | hp
      · obtain ⟨hpown, hun⟩ := hinv.worker.todo p hp
        rw [Function.update_of_ne (hne p hp)]
        exact ⟨hpown, hun.frame (htouch.kept (hne p hp) (by simp [hpown]))⟩
      · obtain rfl := List.mem_singleton.mp hp
        exact ⟨Function.update_self .., hself⟩

theorem workerUnref (hinv : ListOwned me own st) {rest : List Ref} {pc : UnrefPc}
    {saved : Option (Ref × Option ℕ)} {st₁ : ListRun} {u : Option UnrefPc}
    (hpc : st.worker = .unref (r :: rest) pc saved)
    (hunref : st.unrefStep me r pc = some (st₁, u)) :
    ∃ own', ListOwned me own' { st₁ with worker := ListRun.afterUnref r rest saved u } := by
  have hb := hinv.base
  have hholds := hinv.worker
  rw [hpc] at hholds
  have hnodup := hholds.nodup
  simp only [ScanPc.todo, List.map_cons, List.nodup_cons] at hnodup
  obtain ⟨hown, hun⟩ := hholds.todo (r, pc) List.mem_cons_self
  have hslot := hb.slots r.slot
  rw [hown] at hslot
  have hnl : ∀ w, st.listLock ≠ some (.worker w) :=
    hinv.not_traversing (by simp [hpc, ScanPc.Traversing])
  have hothers : ∀ p ∈ (rest ++ saved.toList.map Prod.fst).map (·, UnrefPc.call),
      p.1.slot ≠ r.slot ∧ own p.1.slot = .worker ∧ UnrefOk me st p.1 p.2 := by
    intro p hp
    refine ⟨fun heq => hnodup.1 ?_, hholds.todo p (List.mem_cons_of_mem _ hp)⟩
    exact heq ▸ List.mem_map_of_mem hp
  cases unref_move hb hun (by simp [hown]) hunref with
  | go c u hok hclosed hregistered hstate =>
      have htouch : Touches own st
          { st.setConn r.slot c with worker := ListRun.afterUnref r rest saved (some u) } r.slot c :=
        .write (Or.inr rfl) rfl rfl
      have hbase := hb.move htouch hb.list rfl (o := own r.slot)
        (by rw [hown]; exact hclosed.trans hslot) Iff.rfl rfl (by simp [hown]) rfl id
      have hstep := hinv.workerStep htouch hbase (by simp [hown, Holder.OfThread]) rfl
        ⟨?_, fun p hp => ?_, by rintro ⟨⟩⟩ (fun i => Iff.rfl) fun w hw => absurd hw (hnl w)
      · rw [Function.update_eq_self] at hstep
        exact ⟨own, hstep⟩
      · exact List.nodup_cons.mpr hnodup
      · rw [Function.update_eq_self]
        rcases List.mem_cons.mp hp with rfl | hp
        · exact ⟨hown, hok.frame ⟨rfl, rfl, id⟩⟩
        · obtain ⟨hne, hpown, hpun⟩ := hothers p hp
          exact ⟨hpown, hpun.frame (htouch.kept hne (by simp [hpown]))⟩
  | done hstate =>
      have htouch : Touches own st
          { { st with freeSlots := r.slot :: st.freeSlots } with
            worker := ListRun.afterUnref r rest saved none } r.slot (st.conn r.slot) :=
        .write (Or.inr rfl) (Function.update_eq_self r.slot st.conn).symm rfl
      have htodo := ScanPc.todo_unref rest saved st.garbage
      refine ⟨_, hinv.workerStep htouch (o := .free) ?_ (by simp [hown, Holder.OfThread]) rfl
        ⟨?_, fun p hp => ?_, by rintro ⟨⟩⟩ (fun i => Iff.rfl) fun w hw => absurd hw (hnl w)⟩
      · refine hb.release rfl rfl rfl rfl hstate (by simp [hown]) (by simp [hown]) (fun _ _ => rfl) ?_
        exact eq_false_of_ne_true fun hf => by cases hown.symm.trans (hb.foreign _ hf)
      · show (((ScanPc.unref rest .call saved).todo st.garbage).map fun p => p.1.slot).Nodup
        rw [htodo]
        exact hnodup.2
      · obtain ⟨hne, hpown, hpun⟩ := hothers p (htodo ▸ hp)
        rw [Function.update_of_ne hne]
        exact ⟨hpown, hpun.frame (htouch.kept hne (by simp [hpown]))⟩

/-- A step of the worker that concerns no slot; the lock stays as it is. -/
theorem workerNext (hinv : ListOwned me own st) (hsame : SlotsAlike st st')
    (hsub : (st'.worker.todo st'.garbage).Sublist (st.worker.todo st.garbage))
    (hlock : st'.listLock = st.listLock) (htraversing : st'.worker.Traversing ↔ st.worker.Traversing) :
    ListOwned me own st' := by
  refine hinv.workerMove hsame (hinv.worker.next hsame hsub fun ht => ?_)
    (fun i => by rw [hlock]) fun w hw => ?_
  · rw [hlock]
    exact hinv.worker.lock (htraversing.mp ht)
  · rw [hlock] at hw
    obtain ⟨hw, ht⟩ := hinv.lock _ hw
    exact ⟨hw, htraversing.mpr ht⟩

theorem workerLock (hinv : ListOwned me own st) (hfree : st.listLock = none) (hsame : SlotsAlike st st')
    (hsub : (st'.worker.todo st'.garbage).Sublist (st.worker.todo st.garbage))
    (hlock : st'.listLock = some (.worker me)) (htraversing : st'.worker.Traversing) :
    ListOwned me own st' := by
  refine hinv.workerMove hsame (hinv.worker.next hsame hsub fun _ => hlock) (fun i => ?_) fun w hw => ?_
  · rw [hlock, hfree]
    simp
  · rw [hlock] at hw
    cases hw
    exact ⟨rfl, htraversing⟩

theorem scanEnd (hinv : ListOwned me own st) (hpc : st.worker = .scan none) :
    ListOwned me own { st with listLock := none, worker := .unref st.garbage .call none } := by
  have hlock := hinv.worker.lock (by simp [hpc, ScanPc.Traversing])
  have hsame : SlotsAlike st { st with listLock := none, worker := .unref st.garbage .call none } :=
    ⟨rfl, rfl, rfl, rfl, rfl, rfl, rfl⟩
  refine hinv.workerMove hsame (hinv.worker.next hsame ?_ nofun) (fun i => ?_) nofun
  · rw [hpc, ScanPc.todo_unref]
    simp [ScanPc.todo]
  · rw [hlock]
    simp

theorem collect (hinv : ListOwned me own st) {s : ℕ} (hpc : st.worker = .scan (some s))
    (hmem : s ∈ st.members) (hcollect : st.Collectable s) :
    ListOwned me (Function.update own s .worker)
      { st.close s with
        garbage := st.garbage ++ [st.current s]
        worker := .scan (st.links.next s)
        passed := st.passed ++ [st.current s]
        collected := st.collected ++ [st.current s] } := by
  have hlock := hinv.worker.lock (by simp [hpc, ScanPc.Traversing])
  refine hinv.workerClose (hinv.base.collectable hmem hcollect) rfl rfl rfl rfl rfl rfl rfl ?_
    (fun _ => hlock) (fun i => Iff.rfl) fun w hw => ?_
  · rw [hpc]
    simp [ScanPc.todo]
  · exact ⟨(hinv.lock _ hw).1, trivial⟩

theorem bucketFull (hinv : ListOwned me own st) {s : ℕ} (hpc : st.worker = .scan (some s))
    (hmem : s ∈ st.members) (hcollect : st.Collectable s) :
    ListOwned me (Function.update own s .worker)
      { st.close s with
        listLock := none
        worker := .unref st.garbage .call (some (st.current s, st.links.next s))
        passed := st.passed ++ [st.current s]
        collected := st.collected ++ [st.current s] } := by
  have hlock := hinv.worker.lock (by simp [hpc, ScanPc.Traversing])
  refine hinv.workerClose (hinv.base.collectable hmem hcollect) rfl rfl rfl rfl rfl rfl rfl ?_
    nofun (fun i => ?_) nofun
  · rw [hpc, ScanPc.todo_unref]
    simp [ScanPc.todo]
  · rw [hlock]
    simp

theorem scan (hinv : ListOwned me own st)
    (hcurr : ∀ s, st.worker = .scan (some s) → s ∈ st.members)
    (ht : ListRun.ScanTransition me st st') : ∃ own', ListOwned me own' st' := by
  cases ht with
  | scanEnd hpc => exact ⟨own, hinv.scanEnd hpc⟩
  | collect s hpc hcollect => exact ⟨_, hinv.collect hpc (hcurr s hpc) hcollect⟩
  | bucketFull s hpc hcollect => exact ⟨_, hinv.bucketFull hpc (hcurr s hpc) hcollect⟩
  | skip s hpc =>
      refine ⟨own, hinv.workerNext ⟨rfl, rfl, rfl, rfl, rfl, rfl, rfl⟩ ?_ rfl ?_⟩
      · rw [hpc]
        exact List.Sublist.refl _
      · rw [hpc]
        exact Iff.rfl
  | relock keep next hpc hfree =>
      refine ⟨own, hinv.workerLock hfree ⟨rfl, rfl, rfl, rfl, rfl, rfl, rfl⟩ ?_ rfl trivial⟩
      rw [hpc]
      exact List.Sublist.refl _
  | unref r rest pc saved st₁ u hpc hunref => exact hinv.workerUnref hpc hunref
  | bucketEmpty pc keep next hpc =>
      refine ⟨own, hinv.workerNext ⟨rfl, rfl, rfl, rfl, rfl, rfl, rfl⟩ ?_ rfl ?_⟩
      · rw [hpc]
        exact List.Sublist.refl _
      · rw [hpc]
        exact Iff.rfl

/-! ### Other workers -/

theorem take (hinv : ListOwned me own st) {s : ℕ} {rest : List ℕ} (hfree : st.freeSlots = s :: rest) :
    ListOwned me (Function.update own s .foreign)
      { st.setConn s { st.conn s with gen := (st.conn s).gen + 1 } with
        freeSlots := rest
        tenancy := Function.update st.tenancy s (st.tenancy s + 1)
        foreign := Function.update st.foreign s true } := by
  have hb := hinv.base
  have hown : own s = .free := hb.free.2 s (by rw [hfree]; exact List.mem_cons_self)
  have hslot := hb.slots s
  rw [hown] at hslot
  have htouch : Touches own st
      { st.setConn s { st.conn s with gen := (st.conn s).gen + 1 } with
        freeSlots := rest
        tenancy := Function.update st.tenancy s (st.tenancy s + 1)
        foreign := Function.update st.foreign s true } s
      { st.conn s with gen := (st.conn s).gen + 1 } :=
    ⟨rfl, fun t ht => Function.update_of_ne ht .., fun _ _ _ halone => halone⟩
  refine hinv.foreignStep htouch ?_ (Or.inl hown) rfl rfl rfl rfl
  refine hb.acquire htouch rfl rfl hfree (fun hpass => ?_) (by simp)
    (fun t ht => Function.update_of_ne ht ..) fun _ => rfl
  cases (Engine.checkSlot_process hpass).1.symm.trans hslot

theorem touch (hinv : ListOwned me own st) {s : ℕ} (c : Conn) (next prev : Option ℕ)
    (hforeign : st.foreign s = true) (hpass : ¬ListRun.Passes me c) :
    ListOwned me own { st.setConn s c with links := st.links.write s next prev } := by
  have hb := hinv.base
  have hown := hb.foreign s hforeign
  have htouch : Touches own st { st.setConn s c with links := st.links.write s next prev } s c :=
    ⟨rfl, fun _ _ => rfl, fun t ht _ halone => halone.write ht ..⟩
  have hbase := hb.move htouch (hb.list.write (hb.not_mem (by simp [hown])) ..) rfl (o := own s)
    (by rw [hown]; exact hpass) Iff.rfl rfl (by simp [hown]) rfl id
  have hstep := hinv.foreignStep htouch hbase (Or.inr hown) rfl rfl rfl rfl
  rwa [Function.update_eq_self] at hstep

theorem give (hinv : ListOwned me own st) {s : ℕ} (hforeign : st.foreign s = true)
    (hstate : (st.conn s).slotState = false) :
    ListOwned me (Function.update own s .free)
      { st with
        freeSlots := s :: st.freeSlots
        foreign := Function.update st.foreign s false } := by
  have hb := hinv.base
  have hown := hb.foreign s hforeign
  have htouch : Touches own st
      { st with
        freeSlots := s :: st.freeSlots
        foreign := Function.update st.foreign s false } s (st.conn s) :=
    .write (Or.inr rfl) (Function.update_eq_self s st.conn).symm rfl
  refine hinv.foreignStep htouch ?_ (Or.inr hown) rfl rfl rfl rfl
  exact hb.release rfl rfl rfl rfl hstate (by simp [hown]) (by simp [hown])
    (fun t ht => Function.update_of_ne ht ..) (Function.update_self ..)

/-! ### All steps -/

theorem initBase (me : ℕ) : ListBase me (fun _ => .free) ListRun.init where
  list := ⟨rfl, List.nodup_nil, by simp [ListRun.init], by simp [ListRun.init]⟩
  members := by simp [ListRun.init]
  slots := fun _ => rfl
  free := by
    refine ⟨?_, fun _ _ => rfl⟩
    simp only [ListRun.init]
    exact nodup_initialSlots .tcp
  foreign := nofun

theorem init (me : ℕ) : ListOwned me (fun _ => .free) ListRun.init where
  base := initBase me
  worker := ⟨List.nodup_nil, nofun, nofun⟩
  threads _ := trivial
  lock := nofun

theorem step (hinv : ListOwned me own st) (hcurr : ∀ s, st.worker = .scan (some s) → s ∈ st.members)
    {ev : ListEvent} (ht : ListRun.Transition me st ev st') : ∃ own', ListOwned me own' st' := by
  cases ht with
  | handoff h ht | handshake h ok ht => exact hinv.handoff ht
  | epollWait n pc hpc =>
      refine ⟨own, hinv.workerNext ⟨rfl, rfl, rfl, rfl, rfl, rfl, rfl⟩ (List.nil_sublist _) rfl ?_⟩
      rw [hpc]
      exact Iff.rfl
  | event n hpc =>
      refine ⟨own, hinv.workerNext ⟨rfl, rfl, rfl, rfl, rfl, rfl, rfl⟩ ?_ rfl ?_⟩
      · rw [hpc]
        exact List.Sublist.refl _
      · rw [hpc]
        exact Iff.rfl
  | fatal n s hpc hfree hpass =>
      refine ⟨_, hinv.workerClose (hinv.base.passes hpass) rfl rfl rfl rfl rfl rfl rfl ?_ nofun
        (fun i => Iff.rfl) fun w hw => ?_⟩
      · rw [hpc]
        simp [ScanPc.todo]
      · exact absurd hw (hinv.not_traversing (by simp [hpc, ScanPc.Traversing]) w)
  | noScan hpc =>
      refine ⟨own, hinv.workerNext ⟨rfl, rfl, rfl, rfl, rfl, rfl, rfl⟩ ?_ rfl ?_⟩
      · rw [hpc, ScanPc.todo_unref]
        simp [ScanPc.todo]
      · rw [hpc]
        exact Iff.rfl
  | scanStart expired hpc hfree =>
      refine ⟨own, hinv.workerLock hfree ⟨rfl, rfl, rfl, rfl, rfl, rfl, rfl⟩ ?_ rfl trivial⟩
      rw [hpc]
      exact List.Sublist.refl _
  | worker ht => exact hinv.scan hcurr ht
  | take s rest hfree => exact ⟨_, hinv.take hfree⟩
  | touch s c next prev hforeign hpass => exact ⟨_, hinv.touch c next prev hforeign hpass⟩
  | give s hforeign hstate => exact ⟨_, hinv.give hforeign hstate⟩

end ListOwned

end FiveGProxy
