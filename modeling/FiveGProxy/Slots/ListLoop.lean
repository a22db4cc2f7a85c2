import FiveGProxy.Slots.ListThreads

/-!
# The loop of the worker of a list

What worker `me` does with an event before it closes a connection is one step in its list, and the
scan is the same there step by step. The engine leaves open whether a connection has timed out until
the scan gets to it; the list has settled it at the start, as `ListRun.foreseen` allows.
-/

namespace FiveGProxy

open Steps

variable {me : ℕ} {own own' : ℕ → Owner} {eng eng' : EpollEngine} {lst lst' : ListRun}
  {h i v s : ℕ} {r : Ref} {c : Conn}

/-! ### The loop of the worker -/

section Loop

variable {pc : WorkerPc}

/-- A step of the worker leaves the threads alone. -/
structure ThreadsStill (eng eng' : EpollEngine) (lst lst' : ListRun) : Prop where
  handshake : eng'.handshake = eng.handshake := by rfl
  handshake' : lst'.handshake = lst.handshake := by rfl

/-- A step of `me`. -/
theorem ShowsList.worker (hl : ShowsList me eng lst) (ha : ∀ a, AgentOk .tcp own eng a)
    (hb' : Base .tcp own' eng') (ha' : ∀ a, AgentOk .tcp own' eng' a)
    (hown : OwnFrame me eng eng' lst lst') (hstill : ThreadsStill eng eng' lst lst')
    (hworker : eng'.worker = Function.update eng.worker me pc) (hslots : ShowsSlots me eng' lst')
    (hshown : WorkerShown pc (eng'.garbage me) lst'.worker lst'.garbage)
    (hlock : lst'.listLock = eng'.listLock me)
    (hmembers : lst'.members = eng'.enlisting me ++ eng'.connList me) : ShowsList me eng' lst' := by
  have hframe := hown.listFrame fun v hv => by rw [hworker, Function.update_of_ne hv]
  refine ⟨hslots, hl.places.workerStep ha hb' ha' hframe hstill.handshake hstill.handshake'
    (congrFun hown.stopping me) ?_ hlock hmembers⟩
  rwa [hworker, Function.update_self]

theorem ShowsList.worker_events (hl : ShowsList me eng lst) {batch : List (BitVec 64)}
    (hpc : eng.worker me = .events batch) :
    lst.worker = .events batch.length ∧ lst.garbage = eng.garbage me := by
  have hshown := hl.places.worker
  rw [hpc] at hshown
  generalize lst.worker = w, lst.garbage = g at hshown
  cases hshown
  exact ⟨rfl, rfl⟩

/-- Between two events the list has as many left as the worker. -/
theorem ShowsList.worker_event (hl : ShowsList me eng lst) {batch : List (BitVec 64)}
    (hpc : (∃ raw todo seen, eng.worker me = .check raw todo seen batch) ∨
      ∃ s, eng.worker me = .process s batch ∨ eng.worker me = .fatal s batch) :
    lst.worker = .events (batch.length + 1) ∧ lst.garbage = eng.garbage me := by
  have hshown := hl.places.worker
  rcases hpc with ⟨raw, todo, seen, hpc⟩ | ⟨s, hpc | hpc⟩ <;> rw [hpc] at hshown <;>
    generalize lst.worker = w, lst.garbage = g at hshown <;> cases hshown <;> exact ⟨rfl, rfl⟩

/-- What follows a connection on the list. -/
theorem next_append {pre post : List ℕ} (hnot : s ∉ pre) :
    EpollEngine.next (pre ++ s :: post) s = post.head? := by
  induction pre with
  | nil => exact if_pos rfl
  | cons a pre ih =>
      rw [List.mem_cons, not_or] at hnot
      rw [List.cons_append, EpollEngine.next, if_neg (Ne.symm hnot.1), ih hnot.2]

theorem next_of_not_mem {l : List ℕ} (hnot : s ∉ l) : EpollEngine.next l s = none := by
  induction l with
  | nil => rfl
  | cons a l ih =>
      rw [List.mem_cons, not_or] at hnot
      rw [EpollEngine.next, if_neg (Ne.symm hnot.1), ih hnot.2]

/-- `conn->next` is the pointer of the list. -/
theorem nextConn_eq (hb : Base .tcp own eng) (hme : me < Engine.tcp.workerCount)
    (hmem : s ∈ eng.connList me) {l : Links ℕ} (hlist : l.IsList (eng.connList me)) :
    eng.nextConn .tcp s = l.next s := by
  obtain ⟨pre, post, hsplit⟩ := List.append_of_mem hmem
  have hnodup := (hb.lists me).1
  rw [hsplit, List.nodup_append'] at hnodup
  have hnot : s ∉ pre := fun hpre => hnodup.2.2 hpre List.mem_cons_self
  have hnext : EpollEngine.next (eng.connList me) s = l.next s := by
    rw [hlist.next_eq pre s post hsplit, hsplit, next_append hnot]
  have hother : ∀ w, w ≠ me → EpollEngine.next (eng.connList w) s = none := by
    intro w hw
    refine next_of_not_mem fun hmem' => hw ?_
    exact (((hb.lists w).2 s).mp hmem').unique (((hb.lists me).2 s).mp hmem)
  rw [EpollEngine.nextConn, ← hnext]
  cases hfound : (List.range Engine.tcp.workerCount).findSome? fun w =>
      EpollEngine.next (eng.connList w) s with
  | none => exact (List.findSome?_eq_none_iff.mp hfound me (List.mem_range.mpr hme)).symm
  | some t =>
      obtain ⟨w, -, hw⟩ := List.exists_of_findSome?_eq_some hfound
      by_cases hwm : w = me
      · rw [← hwm, hw]
      · rw [hother w hwm] at hw
        cases hw

theorem ShowsSlots.withExpired (hs : ShowsSlots me eng lst) (f : Ref → Bool) :
    ShowsSlots me eng (lst.withExpired f) :=
  hs.same {} (fun _ => rfl)

theorem ShowsList.withExpired (hl : ShowsList me eng lst) (f : Ref → Bool) :
    ShowsList me eng (lst.withExpired f) :=
  ⟨hl.slots.withExpired f, hl.places.lock, hl.places.members, hl.places.stopping, hl.places.worker,
    hl.places.threads, hl.places.workers⟩

/-- Worker `me` closes a connection on its list. -/
theorem ShowsList.close (hl : ShowsList me eng lst) (hb : Base .tcp own eng)
    (ha : ∀ a, AgentOk .tcp own eng a) (hmem : s ∈ eng.connList me) :
    lst.conn s = eng.conn s ∧ ShowsSlots me (eng.unlink me s) (lst.close s) := by
  have hin := ((hb.lists me).2 s).mp hmem
  have hthread : ∀ i, own s ≠ .thread i := by
    intro i hi
    simp [hi] at hin
  have heq : lst.conn s = eng.conn s := by
    refine hl.slots.conn_eq ha (not_mem_free hb fun hown => ?_) hthread
    simp [hown] at hin
  refine ⟨heq, hl.slots.touch rfl rfl rfl (fun _ => rfl) ?_ (by rw [← heq]; rfl) rfl rfl⟩
  exact fun i q l hi hq => hthread i (hq ▸ fill_own ha hi)

/-- With nobody about to put a connection on it, the list is that of the engine. -/
theorem ShowsPlaces.members_eq (hp : ShowsPlaces me eng lst)
    (hlock : ∀ i, eng.listLock me ≠ some (.handshake i)) : lst.members = eng.connList me := by
  rw [hp.members, enlisting_eq_nil hlock, List.nil_append]

theorem members_nil {l : List ℕ} (hlock : ∀ i, eng.listLock me ≠ some (.handshake i))
    (hlist : eng.connList me = l) (hmembers : lst.members = l) :
    lst.members = eng.enlisting me ++ eng.connList me := by
  rw [enlisting_eq_nil hlock, List.nil_append, hmembers, hlist]

/-- The scan of the worker looks at the next connection. -/
theorem ShowsList.scanStep (hl : ShowsList me eng lst) (hinv : ListInv me lst)
    (hreach : Reaches (listStep me) ListRun.init lst) (hpc : eng.worker me = .scan (some s))
    (b : Bool) :
    ∃ lst₀, Reaches (listStep me) ListRun.init lst₀ ∧ ShowsList me eng lst₀ ∧ ListInv me lst₀ ∧
      lst₀.worker = .scan (some s) ∧ lst₀.garbage = eng.garbage me ∧ s ∈ lst₀.members ∧
        lst₀.expired (lst₀.current s) = b := by
  have hshown := hl.places.worker
  rw [hpc] at hshown
  generalize hworker : lst.worker = w, hgarbage : lst.garbage = g at hshown
  cases hshown
  have hscan : lst.Scanning := by
    rw [ListRun.Scanning, hworker]
    rfl
  obtain ⟨holder, howned⟩ := hinv.owned
  obtain ⟨rest, hok⟩ := hinv.scan _ (ListInv.saved_of_scan hworker)
  obtain ⟨tail, rfl, -, hmem⟩ := hok.visit howned.base
  have hnew := hok.not_mem_collected.2
  have hforeseen := ListRun.foreseen
    (f := Function.update lst.expired (lst.current s) b) hreach hscan
    fun r hr => Function.update_of_ne (by rintro rfl; exact hnew hr) _ _
  obtain ⟨evs, hrun⟩ := hforeseen
  exact ⟨_, ⟨evs, hrun⟩, hl.withExpired _, (ListInv.init me).of_run hrun, hworker, hgarbage, hmem,
    Function.update_self ..⟩

/-- The scan of the worker collects the next connection. -/
theorem ShowsList.scanCollect (hl : ShowsList me eng lst) (hinv : ListInv me lst)
    (hreach : Reaches (listStep me) ListRun.init lst) (hb : Base .tcp own eng)
    (ha : ∀ a, AgentOk .tcp own eng a) (hme : me < Engine.tcp.workerCount)
    (hpc : eng.worker me = .scan (some s)) (hmem : s ∈ eng.connList me)
    (hnil : ∀ i, eng.listLock me ≠ some (.handshake i)) (hscan : eng.Scannable .tcp s) :
    ∃ lst₀, Reaches (listStep me) ListRun.init lst₀ ∧ ShowsList me eng lst₀ ∧
      lst₀.worker = .scan (some s) ∧ lst₀.garbage = eng.garbage me ∧ lst₀.Collectable s ∧
        eng.nextConn .tcp s = lst₀.links.next s ∧
          ShowsSlots me (eng.unlink me s) (lst₀.close s) := by
  obtain ⟨lst₀, hreach₀, hl₀, hinv₀, hworker, hgarbage, -, hexpired⟩ :=
    hl.scanStep hinv hreach hpc true
  obtain ⟨holder, howned⟩ := hinv₀.owned
  have hlinks := nextConn_eq hb hme hmem (hl₀.places.members_eq hnil ▸ howned.base.list)
  obtain ⟨hconn, hslots⟩ := hl₀.close hb ha hmem
  refine ⟨lst₀, hreach₀, hl₀, hworker, hgarbage, ?_, hlinks, hslots⟩
  rw [ListRun.Collectable, hconn, hexpired]
  exact ⟨hscan.1, hscan.2.1, hscan.2.2, rfl⟩

theorem ShowsList.worker_unref (hl : ShowsList me eng lst) {rest : List Ref} {u : UnrefPc}
    {k : AfterUnref} (hpc : eng.worker me = .unref (r :: rest) u k) :
    ∃ saved, lst.worker = .unref (r :: rest) u saved ∧ ∀ u',
      WorkerShown (EpollEngine.afterUnref r rest k u') (eng.garbage me)
        (ListRun.afterUnref r rest saved u') lst.garbage := by
  have hshown := hl.places.worker
  rw [hpc] at hshown
  generalize lst.worker = w, lst.garbage = g at hshown
  cases hshown with
  | unref =>
      refine ⟨none, rfl, fun u' => ?_⟩
      cases u' <;> exact .unref _ _ _
  | unrefOn rest u keep next =>
      refine ⟨some (keep, next), rfl, fun u' => ?_⟩
      cases u' <;> exact .unrefOn _ _ _ _ _

/-- The worker unreferences a connection of its bucket. -/
theorem ShowsList.loopUnref (hl : ShowsList me eng lst) (hinv : ListInv me lst)
    (hreach : Reaches (listStep me) ListRun.init lst) (hb : Base .tcp own eng)
    (ha : ∀ a, AgentOk .tcp own eng a) {rest : List Ref} {u : UnrefPc} {k : AfterUnref}
    {eng₁ : EpollEngine} {u' : Option UnrefPc}
    (hb' : Base .tcp own' (eng₁.setWorker me (EpollEngine.afterUnref r rest k u')))
    (ha' : ∀ a, AgentOk .tcp own' (eng₁.setWorker me (EpollEngine.afterUnref r rest k u')) a)
    (hpc : eng.worker me = .unref (r :: rest) u k) (hunref : eng.unrefStep r u = some (eng₁, u')) :
    ∃ lst', Reaches (listStep me) ListRun.init lst' ∧
      ShowsList me (eng₁.setWorker me (EpollEngine.afterUnref r rest k u')) lst' := by
  obtain ⟨saved, hworker, hshown⟩ := hl.worker_unref hpc
  obtain ⟨holder, howned⟩ := hinv.owned
  have hholds := howned.worker
  rw [hworker] at hholds
  obtain ⟨hholder, hok⟩ := hholds.todo (r, u) List.mem_cons_self
  have hun := worker_unrefs hb ha hpc
  have hapart : ∀ i q todo, (eng.handshake i).fill me = some (q, todo) → q.slot ≠ r.slot := by
    intro i q todo hi hq
    have hthread := fill_own ha hi
    rw [hq] at hthread
    cases u with
    | call => cases hthread.symm.trans hun.own
    | exchange | poison | release | push t => cases hthread.symm.trans hun.1
  have hconn := hl.slots.conn r.slot (not_mem_free hb hun.own_ne_free) hapart
  have hnot : r.slot ∉ lst.members := howned.base.not_mem (by simp [hholder])
  obtain ⟨lst₁, hstep, hslots, hsame, hforeign⟩ := hl.slots.unrefStep hok howned.base.list hnot hconn
    hl.places.lock hapart hunref
  obtain ⟨hlist, -⟩ := unrefStep_place hb hun hunref
  have hframe := EpollEngine.unref_frame hunref
  have hnext : listStep me lst .worker =
      some { lst₁ with worker := ListRun.afterUnref r rest saved u' } := by
    simp only [listStep, ListRun.workerStep, hworker, hstep, Option.map_some]
    cases u' <;> rfl
  have hown : OwnFrame me eng (eng₁.setWorker me (EpollEngine.afterUnref r rest k u')) lst
      { lst₁ with worker := ListRun.afterUnref r rest saved u' } :=
    { tenancy := hframe.tenancy
      freeSlots := fun _ ht => unrefStep_freeSlots hunref ht
      stopping := hframe.stopping
      foreign := hforeign
      lists := fun v _ => congrFun hlist v
      garbage := fun v _ => congrFun hframe.garbage v }
  refine ⟨_, hreach.trans (.single hnext), hl.worker ha hb' ha' hown
    ⟨hframe.handshake, hsame.handshake⟩ (by rw [← hframe.worker]; rfl)
    (hslots.same {} (fun _ => rfl)) ?_ ?_ ?_⟩
  · rw [show (eng₁.setWorker me (EpollEngine.afterUnref r rest k u')).garbage = eng.garbage from
      hframe.garbage]
    exact hsame.garbage ▸ hshown u'
  · exact hsame.listLock.trans (hl.places.lock.trans (congrFun hframe.listLock me).symm)
  · have henlisting : (eng₁.setWorker me (EpollEngine.afterUnref r rest k u')).enlisting me =
        eng.enlisting me :=
      enlisting_congr (congrFun hframe.listLock me) fun i =>
        congrArg (HandshakePc.enlists me) (congrFun hframe.handshake i)
    rw [henlisting, show (eng₁.setWorker me (EpollEngine.afterUnref r rest k u')).connList =
      eng.connList from hlist]
    exact hsame.members.trans hl.places.members

theorem ShowsSlots.current_eq (hs : ShowsSlots me eng lst) (s : ℕ) :
    lst.current s = eng.current s := by
  rw [ListRun.current, EpollEngine.current, hs.tenancy]

theorem Conn.Held.passes (hheld : c.Held .tcp s) (hclosed : c.closed = false)
    (hregistered : c.registered = true) (hwidx : c.widx = me) : ListRun.Passes me c := by
  simp [ListRun.Passes, Engine.checkSlot, connEventCheckSlot, Conn.snapshot, Engine.magic,
    hheld.slotState, hheld.magic, hclosed, hregistered, hwidx]

/-- Worker `me` does not leave its loop: neither the test of `server_running` nor the event of the
pipe ends it. -/
def InLoop (st : EpollEngine) : WorkerPc → Prop
  | .loopTest => st.serverRunning = true
  | .events (raw :: _) => raw ≠ 0
  | _ => True

theorem ShowsList.loopStep (hl : ShowsList me eng lst) (hinv : ListInv me lst)
    (hreach : Reaches (listStep me) ListRun.init lst) (hb : Base .tcp own eng)
    (ha : ∀ a, AgentOk .tcp own eng a) (hb' : Base .tcp own' eng')
    (ha' : ∀ a, AgentOk .tcp own' eng' a) (hme : me < Engine.tcp.workerCount)
    {choice : Bool} {batch : List (BitVec 64)}
    (hcond : WorkerActsOnOwn .tcp eng me choice (eng.worker me)) (hstay : InLoop eng (eng.worker me))
    (hstep : eng.workerStep .tcp me choice batch = some eng') :
    ∃ lst', Reaches (listStep me) ListRun.init lst' ∧ ShowsList me eng' lst' := by
  have hok : WorkerOk .tcp own eng me (eng.worker me) (eng.garbage me) := ha (.worker me)
  have hother : ∀ {α : Type} {f : ℕ → α} {x : α} (v), v ≠ me → Function.update f me x v = f v :=
    fun v hv => Function.update_of_ne hv ..
  have hslots : ShowsSlots me eng lst := hl.slots
  have moves := @ShowsList.worker me own own' eng eng' lst
  have stays : ∀ {pc}, eng' = eng.setWorker me pc →
      WorkerShown pc (eng.garbage me) lst.worker lst.garbage →
      ∃ lst', Reaches (listStep me) ListRun.init lst' ∧ ShowsList me eng' lst' := by
    rintro pc rfl hshown
    exact ⟨lst, hreach, moves hl ha hb' ha' {} {} rfl
      (hslots.same {} (fun _ => rfl)) hshown hl.places.lock hl.places.members⟩
  have passes : ∀ {rest : List (BitVec 64)}, eng' = eng.setWorker me (.events rest) →
      lst.worker = .events (rest.length + 1) ∧ lst.garbage = eng.garbage me →
      ∃ lst', Reaches (listStep me) ListRun.init lst' ∧ ShowsList me eng' lst' := by
    rintro rest rfl ⟨hworker, hgarbage⟩
    have hnext : listStep me lst (.event none) =
        some { lst with worker := .events rest.length } := by
      simp only [listStep, ListRun.eventStep, hworker]
    refine ⟨_, hreach.trans (.single hnext), moves hl ha hb' ha' {} {} rfl
      (hslots.same {} (fun _ => rfl)) ?_ hl.places.lock hl.places.members⟩
    exact hgarbage ▸ .events rest _
  have hshown := hl.places.worker
  cases EpollEngine.worker_transition hstep with
  | running hpc =>
      rw [hpc] at hshown
      generalize hworker : lst.worker = w, lst.garbage = g at hshown
      cases hshown
      refine ⟨lst, hreach, moves hl ha hb' ha' { garbage := hother } {} rfl
        (hslots.same {} (fun _ => rfl)) ?_ hl.places.lock hl.places.members⟩
      rw [hworker, show ((eng.setGarbage me []).setWorker me .wait).garbage me = [] from
        Function.update_self ..]
      exact .wait _ _
  | stopped hpc hstopped =>
      rw [hpc] at hstay
      cases hstay.symm.trans hstopped
  | delivered hpc hbatch =>
      rw [hpc] at hshown
      generalize hworker : lst.worker = w, lst.garbage = g', hgarbage : eng.garbage me = g at hshown
      cases hshown
      have hnext : listStep me lst (.epollWait batch.length) =
          some { lst with garbage := [], worker := .events batch.length } := by
        simp only [listStep, hworker, hbatch.1, if_true]
      refine ⟨_, hreach.trans (.single hnext), moves hl ha hb' ha' {} {} rfl
        (hslots.same {} (fun _ => rfl)) ?_ hl.places.lock hl.places.members⟩
      rw [show (eng.setWorker me (.events batch)).garbage me = [] from hgarbage]
      exact .events batch []
  | scanDue hpc =>
      obtain ⟨hworker, hgarbage⟩ := hl.worker_events hpc
      refine stays rfl ?_
      rw [hworker, hgarbage]
      exact .scanLock _
  | batchDone hpc =>
      obtain ⟨hworker, hgarbage⟩ := hl.worker_events hpc
      have hnext : listStep me lst .noScan =
          some { lst with worker := .unref lst.garbage .call none } := if_pos hworker
      refine ⟨_, hreach.trans (.single hnext), moves hl ha hb' ha' {} {} rfl
        (hslots.same {} (fun _ => rfl)) ?_ hl.places.lock hl.places.members⟩
      exact hgarbage ▸ .unref _ .call _
  | quitEvent rest hpc =>
      rw [hpc] at hstay
      exact absurd rfl hstay
  | dnsWake raw rest hpc | badSlot raw rest hpc => exact passes rfl (hl.worker_events hpc)
  | startCheck raw rest hpc =>
      obtain ⟨hworker, hgarbage⟩ := hl.worker_events hpc
      refine stays rfl ?_
      rw [hworker, hgarbage]
      exact .check raw _ _ rest _
  | readField raw f todo seen rest hpc =>
      obtain ⟨hworker, hgarbage⟩ := hl.worker_event (.inl ⟨_, _, _, hpc⟩)
      refine stays rfl ?_
      rw [hworker, hgarbage]
      exact .check raw _ _ rest _
  | pass raw seen rest hpc =>
      obtain ⟨hworker, hgarbage⟩ := hl.worker_event (.inl ⟨_, _, _, hpc⟩)
      refine ⟨lst, hreach, moves hl ha hb' ha' {} {} rfl
        (hslots.same {} (fun _ => rfl)) ?_ hl.places.lock hl.places.members⟩
      rw [hworker, hgarbage]
      exact .process _ rest _
  | stale raw seen rest hpc => exact passes rfl (hl.worker_event (.inl ⟨_, _, _, hpc⟩))
  | fatal s rest hpc =>
      obtain ⟨hworker, hgarbage⟩ := hl.worker_event (.inr ⟨_, .inl hpc⟩)
      refine stays rfl ?_
      rw [hworker, hgarbage]
      exact .fatal s rest _
  | served s rest hpc => exact passes rfl (hl.worker_event (.inr ⟨_, .inl hpc⟩))
  | alreadyClosed s rest hpc => exact passes rfl (hl.worker_event (.inr ⟨_, .inr hpc⟩))
  | lose s rest hpc hfree hopen he => cases he
  | loop u hpc =>
      rw [hpc] at hshown
      generalize hworker : lst.worker = w, lst.garbage = g' at hshown
      cases hshown
      refine stays rfl ?_
      rw [hworker]
      exact .loopTest _ _ _
  | close s rest hpc hfree =>
      obtain ⟨hworker, hgarbage⟩ := hl.worker_event (.inr ⟨_, .inr hpc⟩)
      rw [hpc] at hok
      obtain ⟨hown, hregistered⟩ := hok.serving rfl s rfl
      have hmem : s ∈ eng.connList me := ((hb.lists me).2 s).mpr (.inl hown)
      have hheld := hb.slots s
      rw [hown] at hheld
      have hnil : ∀ i, eng.listLock me ≠ some (.handshake i) := by simp [hfree]
      have hlock := hl.places.lock.trans hfree
      have collected : (((eng.unlink me s).setGarbage me (eng.garbage me ++ [eng.current s])).setWorker
          me (.events rest)).garbage me = eng.garbage me ++ [eng.current s] := Function.update_self ..
      obtain ⟨hconn, hslots'⟩ := hl.close hb ha hmem
      have hpass : ListRun.Passes me (lst.conn s) :=
        hconn ▸ hheld.1.passes hheld.2.1 hregistered hheld.2.2
      have hnext : listStep me lst (.event (some s)) = some { lst.close s with
          garbage := lst.garbage ++ [lst.current s], worker := .events rest.length } := by
        simp only [listStep, ListRun.eventStep, hworker, hlock, hpass, and_self, if_true]
      refine ⟨_, hreach.trans (.single hnext), moves hl ha hb' ha'
        { lists := hother, garbage := hother } {} rfl (hslots'.same {} (fun _ => rfl)) ?_
        hl.places.lock ?_⟩
      · show WorkerShown _ _ (.events rest.length) (lst.garbage ++ [lst.current s])
        rw [collected, hl.slots.current_eq, hgarbage]
        exact .events rest _
      · exact members_nil hnil (Function.update_self me _ eng.connList)
          (congrArg (List.erase · s) (hl.places.members_eq hnil))
  | scanLock hpc hfree =>
      have hmembers := hl.places.members_eq (by simp [hfree])
      rw [hpc] at hshown
      generalize hworker : lst.worker = w, hgarbage : lst.garbage = g' at hshown
      cases hshown
      obtain ⟨holder, howned⟩ := hinv.owned
      have hnext : listStep me lst (.scanStart fun _ => false) = some _ :=
        if_pos ⟨hworker, hl.places.lock.trans hfree⟩
      refine ⟨_, hreach.trans (.single hnext), moves hl ha hb' ha' {} {} rfl
        (hslots.same {} (fun _ => rfl)) ?_
        (Function.update_self me (some (Agent.worker me)) eng.listLock).symm ?_⟩
      · rw [hgarbage, howned.base.list.head_eq, hmembers]
        exact .scan _ _
      · rw [enlisting_eq_nil (by simp [EpollEngine.setWorker, EpollEngine.setLock])]
        exact hmembers
  | scanEnd hpc =>
      rw [hpc] at hshown hok
      generalize hworker : lst.worker = w, hgarbage : lst.garbage = g' at hshown
      cases hshown
      have hmembers := hl.places.members_eq (by simp [hok.lock trivial])
      have hnext : listStep me lst .worker =
          some { lst with listLock := none, worker := .unref lst.garbage .call none } := by
        simp only [listStep, ListRun.workerStep, hworker]
      refine ⟨_, hreach.trans (.single hnext), moves hl ha hb' ha' {} {} rfl
        (hslots.same {} (fun _ => rfl)) ?_ (Function.update_self me none eng.listLock).symm ?_⟩
      · exact hgarbage ▸ .unref _ .call _
      · rw [enlisting_eq_nil (by simp [EpollEngine.setWorker, EpollEngine.setLock])]
        exact hmembers
  | scanLose s hpc hchoice hscan hfull he => cases he
  | scanClose s hpc hchoice hscan hroom =>
      rw [hpc] at hcond hok
      have hmem := hcond hchoice hscan
      have hnil : ∀ i, eng.listLock me ≠ some (.handshake i) := by simp [hok.lock trivial]
      have collected : (((eng.unlink me s).setGarbage me (eng.garbage me ++ [eng.current s])).setWorker
          me (.scan (eng.nextConn .tcp s))).garbage me = eng.garbage me ++ [eng.current s] :=
        Function.update_self ..
      obtain ⟨lst₀, hreach₀, hl₀, hworker, hgarbage, hcollect, hlinks, hslots'⟩ :=
        hl.scanCollect hinv hreach hb ha hme hpc hmem hnil hscan
      have hnext : listStep me lst₀ .worker = some { lst₀.close s with
          garbage := lst₀.garbage ++ [lst₀.current s]
          worker := .scan (lst₀.links.next s)
          passed := lst₀.passed ++ [lst₀.current s]
          collected := lst₀.collected ++ [lst₀.current s] } := by
        simp only [listStep, ListRun.workerStep, hworker, hcollect, hgarbage, hroom, if_true]
      refine ⟨_, hreach₀.trans (.single hnext), hl₀.worker ha hb' ha'
        { lists := hother, garbage := hother } {} rfl (hslots'.same {} (fun _ => rfl)) ?_
        hl₀.places.lock ?_⟩
      · show WorkerShown _ _ (.scan (lst₀.links.next s)) (lst₀.garbage ++ [lst₀.current s])
        rw [collected, hl₀.slots.current_eq, hgarbage, hlinks]
        exact .scan _ _
      · exact members_nil hnil (Function.update_self me _ eng.connList)
          (congrArg (List.erase · s) (hl₀.places.members_eq hnil))
  | scanFull s hpc hchoice hscan hfull =>
      rw [hpc] at hcond hok
      have hmem := hcond hchoice hscan
      have hnil : ∀ i, eng.listLock me ≠ some (.handshake i) := by simp [hok.lock trivial]
      obtain ⟨lst₀, hreach₀, hl₀, hworker, hgarbage, hcollect, hlinks, hslots'⟩ :=
        hl.scanCollect hinv hreach hb ha hme hpc hmem hnil hscan
      have hnext : listStep me lst₀ .worker = some { lst₀.close s with
          listLock := none
          worker := .unref lst₀.garbage .call (some (lst₀.current s, lst₀.links.next s))
          passed := lst₀.passed ++ [lst₀.current s]
          collected := lst₀.collected ++ [lst₀.current s] } := by
        simp only [listStep, ListRun.workerStep, hworker, hcollect, hgarbage, hfull, if_true, if_false]
      refine ⟨_, hreach₀.trans (.single hnext), hl₀.worker ha hb' ha' { lists := hother } {} rfl
        (hslots'.same {} (fun _ => rfl)) ?_ (Function.update_self me none eng.listLock).symm ?_⟩
      · show WorkerShown _ (eng.garbage me)
          (.unref lst₀.garbage .call (some (lst₀.current s, lst₀.links.next s))) lst₀.garbage
        rw [hl₀.slots.current_eq, hgarbage, hlinks]
        exact .unrefOn _ .call _ _ _
      · refine members_nil (by simp [EpollEngine.setWorker, EpollEngine.setLock])
          (Function.update_self me _ eng.connList)
          (congrArg (List.erase · s) (hl₀.places.members_eq hnil))
  | scanSkip s hpc hskip =>
      rw [hpc] at hok
      have hnil : ∀ i, eng.listLock me ≠ some (.handshake i) := by simp [hok.lock trivial]
      obtain ⟨lst₀, hreach₀, hl₀, hinv₀, hworker, hgarbage, hmem, hexpired⟩ :=
        hl.scanStep hinv hreach hpc false
      obtain ⟨holder, howned⟩ := hinv₀.owned
      rw [hl₀.places.members_eq hnil] at hmem
      have hlinks := nextConn_eq hb hme hmem (hl₀.places.members_eq hnil ▸ howned.base.list)
      have hcollect : ¬lst₀.Collectable s := by
        rintro ⟨-, -, -, h⟩
        cases hexpired.symm.trans h
      have hnext : listStep me lst₀ .worker = some { lst₀ with
          worker := .scan (lst₀.links.next s), passed := lst₀.passed ++ [lst₀.current s] } := by
        simp only [listStep, ListRun.workerStep, hworker, hcollect, if_false]
      refine ⟨_, hreach₀.trans (.single hnext), hl₀.worker ha hb' ha' {} {} rfl
        (hl₀.slots.same {} (fun _ => rfl)) ?_ hl₀.places.lock hl₀.places.members⟩
      rw [hgarbage, hlinks]
      exact .scan _ _
  | relock keep nxt hpc hfree =>
      have hmembers := hl.places.members_eq (by simp [hfree])
      rw [hpc] at hshown
      generalize hworker : lst.worker = w, hgarbage : lst.garbage = g' at hshown
      cases hshown
      have hnext : listStep me lst .worker =
          some { lst with listLock := some (.worker me), garbage := [keep], worker := .scan nxt } := by
        simp only [listStep, ListRun.workerStep, hworker, hl.places.lock.trans hfree, if_true]
      refine ⟨_, hreach.trans (.single hnext), moves hl ha hb' ha' { garbage := hother } {} rfl
        (hslots.same {} (fun _ => rfl)) ?_
        (Function.update_self me (some (Agent.worker me)) eng.listLock).symm ?_⟩
      · rw [show (((eng.setLock me (some (.worker me))).setGarbage me [keep]).setWorker me
          (.scan nxt)).garbage me = [keep] from Function.update_self ..]
        exact .scan _ _
      · exact members_nil
          (by simp [EpollEngine.setWorker, EpollEngine.setLock, EpollEngine.setGarbage]) rfl hmembers
  | scanOn u keep nxt hpc =>
      rw [hpc] at hshown
      generalize hworker : lst.worker = w, hgarbage : lst.garbage = g' at hshown
      cases hshown
      have hnext : listStep me lst .worker =
          some { lst with garbage := [], worker := .relock keep nxt } := by
        simp only [listStep, ListRun.workerStep, hworker]
      refine ⟨_, hreach.trans (.single hnext), moves hl ha hb' ha' { garbage := hother } {} rfl
        (hslots.same {} (fun _ => rfl)) ?_ hl.places.lock hl.places.members⟩
      rw [show ((eng.setGarbage me []).setWorker me (.relock keep nxt)).garbage me = [] from
        Function.update_self ..]
      exact .relock _ _ _
  | drainOn u hpc | drained u hpc | exit u hpc | stop hpc | drainLock hpc
  | drainClose collected s rest hpc | drainSkip collected s rest hpc | drainFull collected s rest hpc
  | drainEnd collected hpc =>
      rw [hpc] at hshown
      generalize lst.worker = w, lst.garbage = g' at hshown
      cases hshown
  | unref r rest u k st₁ u' hpc hunref =>
      exact hl.loopUnref hinv hreach hb ha hb' ha' hpc hunref

end Loop

end FiveGProxy
