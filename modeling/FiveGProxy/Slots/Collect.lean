import FiveGProxy.Slots.Handover

/-!
# Collecting connections

The steps of a worker: it checks events, closes connections after a fatal event, in the timeout scan
and at its end, and unreferences what it has collected. `WorkerPc.pending` is what it still has to
unreference; every way of leaving the loop has to keep that exact.
-/

namespace FiveGProxy

open Steps

variable {e : Engine} {own : ℕ → Owner} {st st' : EpollEngine} {w : ℕ}

/-! ### The check of an event -/

theorem Engine.checkSlot_process {egen : BitVec 32} {v : Snapshot}
    (h : e.checkSlot egen v w = .process) :
    v.slotState = true ∧ egen = v.gen ∧ v.magic = e.magic ∧ (e = .tcp → v.widx = w) ∧
      v.closed = false ∧ v.registered = true := by
  cases e with
  | tcp =>
      simp only [checkSlot, connEventCheckSlot] at h
      grind -ring -linarith -order -ac [Engine.magic]
  | udp =>
      simp only [checkSlot, udpEventCheckSlot] at h
      grind -ring -linarith -order -ac [Engine.magic]

theorem Base.passes_listed (hb : Base e own st) {egen : BitVec 32} {s : ℕ}
    (h : e.checkSlot egen (st.conn s).snapshot w = .process) : ∃ i, own s = .listed i := by
  obtain ⟨hstate, -, -, -, hclosed, hreg⟩ := Engine.checkSlot_process h
  simp only [Conn.snapshot] at hstate hclosed hreg
  have hslot := hb.slots s
  rcases ho : own s with _ | i | ⟨i, j⟩ | i | i | a | _ <;> rw [ho] at hslot
  · exact absurd (hslot.symm.trans hstate) (by decide)
  · exact absurd ((hslot hstate).symm.trans hreg) (by decide)
  · exact absurd (hslot.registered.symm.trans hreg) (by decide)
  · exact ⟨i, rfl⟩
  · exact absurd (hclosed.symm.trans hslot.2) (by decide)
  · rcases hslot.2.2 with hc | hr
    · exact absurd (hclosed.symm.trans hc) (by decide)
    · exact absurd (hr.symm.trans hreg) (by decide)
  · exact absurd (hclosed.symm.trans hslot) (by decide)

/-! ### The identifiers a worker has been given -/

namespace WorkerPc

def batch : WorkerPc → List (BitVec 64)
  | .events l | .check _ _ _ l | .process _ l | .fatal _ l => l
  | _ => []

def Delivered (e : Engine) (issued : List Issued) (pc : WorkerPc) : Prop :=
  (∀ raw ∈ pc.batch, raw = 0 ∨ e = .udp ∧ raw = udpEvDnsWake ∨ raw ∈ issued.map Issued.raw) ∧
    ∀ raw todo seen rest, pc = .check raw todo seen rest → raw ∈ issued.map Issued.raw

theorem Delivered.mono {issued issued' : List Issued} {pc : WorkerPc}
    (h : pc.Delivered e issued) (hsub : issued ⊆ issued') : pc.Delivered e issued' :=
  ⟨fun raw hraw => (h.1 raw hraw).imp_right fun hr => hr.imp_right fun hm => List.map_subset _ hsub hm,
    fun raw todo seen rest hpc => List.map_subset _ hsub (h.2 raw todo seen rest hpc)⟩

theorem delivered_of_nil {issued : List Issued} {pc : WorkerPc} (hbatch : pc.batch = [])
    (hcheck : ∀ raw todo seen rest, pc ≠ .check raw todo seen rest) : pc.Delivered e issued :=
  ⟨fun raw hraw => by simp [hbatch] at hraw, fun raw todo seen rest hpc =>
    absurd hpc (hcheck raw todo seen rest)⟩

theorem Delivered.next {issued : List Issued} {pc pc' : WorkerPc} (h : pc.Delivered e issued)
    (hbatch : pc'.batch ⊆ pc.batch) (hcheck : ∀ raw todo seen rest, pc' ≠ .check raw todo seen rest) :
    pc'.Delivered e issued :=
  ⟨fun raw hraw => h.1 raw (hbatch hraw), fun raw todo seen rest hpc =>
    absurd hpc (hcheck raw todo seen rest)⟩

end WorkerPc

/-! ### The other threads -/

section Others

variable {b : Agent}

theorem AgentOk.setWorker {pc : WorkerPc} (hok : AgentOk e own st b) (hb : b ≠ .worker w) :
    AgentOk e own (st.setWorker w pc) b :=
  hok.frame (.of_eq rfl rfl fun _ hi => hi)
    (fun i hi => ⟨Function.update_of_ne (by
      rintro rfl
      exact hb hi) _ _, rfl⟩) fun _ _ => rfl

theorem AgentOk.setGarbage {g : List Ref} (hok : AgentOk e own st b) (hb : b ≠ .worker w) :
    AgentOk e own (st.setGarbage w g) b :=
  hok.frame (.of_eq rfl rfl fun _ hi => hi)
    (fun i hi => ⟨rfl, Function.update_of_ne (by
      rintro rfl
      exact hb hi) _ _⟩) fun _ _ => rfl

theorem AgentOk.touchListed {s₀ : ℕ} {o : Owner} {c : Conn} (hok : AgentOk e own st b)
    (hb : b ≠ .worker w) (hown : own s₀ = .listed w) (hclosed : c.closed = true)
    (ho : ∀ h, ¬ o.OfThread h) (hsame : SameThreads st st')
    (hconn : st'.conn = Function.update st.conn s₀ c) :
    AgentOk e (Function.update own s₀ o) st' b := by
  refine hok.touch hsame hconn ?_ fun _ => Or.inr ⟨hclosed, ho⟩
  rw [hown]
  exact fun hheld => hb (hheld.unique (Or.inl rfl))

end Others

theorem EngineInv.worker {pc : WorkerPc} (hb : Base e own st) (hp : Pcs own st)
    (ha : ∀ b, b ≠ .worker w → AgentOk e own st b) (hw : WorkerOk e own st w pc (st.garbage w)) :
    EngineInv e (st.setWorker w pc) := by
  refine ⟨own, { hb with }, { hp with }, fun b => ?_⟩
  by_cases hbw : b = .worker w
  · subst hbw
    show WorkerOk e own _ w (Function.update st.worker w pc w) (st.garbage w)
    rw [Function.update_self]
    exact hw.frame (.of_eq rfl rfl fun _ hi => hi)
  · exact (ha b hbw).setWorker hbw

theorem EngineInv.workerGarbage {pc : WorkerPc} {g : List Ref} (hb : Base e own st)
    (hp : Pcs own st) (ha : ∀ b, b ≠ .worker w → AgentOk e own st b)
    (hw : WorkerOk e own st w pc g) : EngineInv e ((st.setGarbage w g).setWorker w pc) := by
  have hbase : Base e own (st.setGarbage w g) := { hb with }
  refine EngineInv.worker hbase { hp with }
    (fun b hbw => (ha b hbw).setGarbage hbw) ?_
  show WorkerOk e own _ w pc (Function.update st.garbage w g w)
  rw [Function.update_self]
  exact hw.frame (.of_eq rfl rfl fun _ hi => hi)

/-! ### What a worker relies on, from one step to the next -/

namespace WorkerPc

/-- The worker is not inside `conn_finalize`, not serving a connection, and holds no lock. -/
def Quiet (pc : WorkerPc) : Prop :=
  (∀ r rest u k, pc = .unref (r :: rest) u k → u = .call) ∧ ¬ pc.HoldsLock ∧ pc.serving = none

end WorkerPc

theorem WorkerOk.quiet {pc pc' : WorkerPc} {g g' : List Ref} (h : WorkerOk e own st w pc g)
    (hsub : (pc'.pending g').Sublist (pc.pending g)) (hquiet : pc'.Quiet) :
    WorkerOk e own st w pc' g' where
  nodup := h.nodup.sublist (hsub.map _)
  pending r hr := h.pending r (hsub.subset hr)
  finalizing r rest u k hpc hu := absurd (hquiet.1 r rest u k hpc) hu
  lock hl := absurd hl hquiet.2.1
  serving _ _ hs := absurd (hquiet.2.2.symm.trans hs) nofun

theorem WorkerOk.locked {pc pc' : WorkerPc} {g g' : List Ref} (h : WorkerOk e own st w pc g)
    (hsub : (pc'.pending g').Sublist (pc.pending g))
    (hun : ∀ r rest u k, pc' = .unref (r :: rest) u k → u = .call) (hserve : pc'.serving = none)
    (hlock : st.listLock w = some (.worker w)) : WorkerOk e own st w pc' g' where
  nodup := h.nodup.sublist (hsub.map _)
  pending r hr := h.pending r (hsub.subset hr)
  finalizing r rest u k hpc hu := absurd (hun r rest u k hpc) hu
  lock _ := hlock
  serving _ _ hs := absurd (hserve.symm.trans hs) nofun

theorem Base.holds (hb : Base e own st) {r : Ref} (hown : own r.slot = .worker w)
    (hcur : st.tenancy r.slot = r.tenancy) : Holds e own st (.worker w) r := by
  have hslot := hb.slots r.slot
  rw [hown] at hslot
  exact ⟨hown, hcur, hslot.1, Or.inl hslot.2⟩

/-- A connection of the list that has been registered is not being registered. -/
theorem Base.listed_of_registered (hb : Base e own st) {s : ℕ} (hmem : s ∈ st.connList w)
    (hreg : (st.conn s).registered = true) : own s = .listed w := by
  rcases ((hb.lists w).2 s).mp hmem with ho | ⟨h, ho⟩
  · exact ho
  · have hslot := hb.slots s
    rw [ho] at hslot
    exact absurd (hslot.registered.symm.trans hreg) (by decide)

/-- No connection of the list is being registered while no handshake thread holds the lock. -/
theorem Pcs.listed_of_lock (hp : Pcs own st) (hb : Base e own st) (ha : ∀ a, AgentOk e own st a)
    {s : ℕ} (hmem : s ∈ st.connList w) (hlock : ∀ h, st.listLock w ≠ some (.handshake h)) :
    own s = .listed w := by
  rcases ((hb.lists w).2 s).mp hmem with ho | ⟨h, ho⟩
  · exact ho
  · obtain ⟨r, roles, hpc, -⟩ := hp.adding s h w ho
    have hok : HandshakeOk e own st h (.add r w roles) := hpc ▸ ha (.handshake h)
    exact absurd hok.2.2.2 (hlock h)

/-! ### Closing a connection of the list -/

section Unlink

variable {s : ℕ} {o : Owner}

theorem Base.unlink (hb : Base e own st) (hown : own s = .listed w)
    (ho : o = .worker w ∨ o = .lost) : Base e (Function.update own s o) (st.unlink w s) := by
  have hslot := hb.slots s
  rw [hown] at hslot
  refine hb.move rfl rfl rfl rfl rfl rfl (hb.lists.erase (by simp [hown]) ?_) (by simp [hown]) ?_
    (hb.refs s) (by simp [hown, Owner.Ended])
  · rcases ho with rfl | rfl <;> simp
  · rcases ho with rfl | rfl
    · exact ⟨{ hslot.1 with }, rfl⟩
    · rfl

theorem Pcs.unlink (hp : Pcs own st) (ho : o = .worker w ∨ o = .lost) :
    Pcs (Function.update own s o) (st.unlink w s) :=
  hp.move rfl rfl rfl rfl (by rcases ho with rfl | rfl <;> exact nofun)

theorem AgentOk.unlink {b : Agent} (hok : AgentOk e own st b) (hb : b ≠ .worker w)
    (hown : own s = .listed w) (ho : o = .worker w ∨ o = .lost) :
    AgentOk e (Function.update own s o) (st.unlink w s) b :=
  hok.touchListed hb hown rfl
    (by rcases ho with rfl | rfl <;> simp [Owner.OfThread]) ⟨rfl, rfl, rfl, rfl, rfl⟩ rfl

theorem WorkerOk.collect {pc pc' : WorkerPc} {g g' : List Ref} (h : WorkerOk e own st w pc g)
    (hown : own s = .listed w)
    (hperm : (pc'.pending g').Perm (pc.pending g ++ [st.current s]))
    (hun : ∀ r rest u k, pc' = .unref (r :: rest) u k → u = .call) (hserve : pc'.serving = none)
    (htenancy : st'.tenancy = st.tenancy)
    (hlock : pc'.HoldsLock → st'.listLock w = some (.worker w)) :
    WorkerOk e (Function.update own s (.worker w)) st' w pc' g' := by
  have hne : ∀ r ∈ pc.pending g, r.slot ≠ s := by
    intro r hr hs
    have := (h.pending r hr).1
    rw [hs, hown] at this
    cases this
  refine ⟨?_, fun r hr => ?_, fun r rest u k hpc hu => absurd (hun r rest u k hpc) hu, hlock,
    fun _ s' hs => absurd (hserve.symm.trans hs) nofun⟩
  · rw [(hperm.map _).nodup_iff, List.map_append]
    refine List.nodup_append'.mpr ⟨h.nodup, List.nodup_singleton _, ?_⟩
    simp only [List.map_cons, List.map_nil, List.disjoint_singleton]
    intro hmem
    obtain ⟨r, hr, hs⟩ := List.mem_map.mp hmem
    exact hne r hr hs
  · rw [htenancy]
    rcases List.mem_append.mp (hperm.mem_iff.mp hr) with hr | hr
    · rw [Function.update_of_ne (hne r hr)]
      exact h.pending r hr
    · obtain rfl := List.mem_singleton.mp hr
      exact ⟨Function.update_self .., rfl⟩

/-- The connection is closed, and the worker keeps no pointer to it. -/
theorem WorkerOk.lose {pc pc' : WorkerPc} {g : List Ref} (h : WorkerOk e own st w pc g)
    (hown : own s = .listed w) (hpending : pc'.pending g = pc.pending g)
    (hun : ∀ r rest u k, pc' = .unref (r :: rest) u k → u = .call) (hserve : pc'.serving = none)
    (htenancy : st'.tenancy = st.tenancy)
    (hlock : pc'.HoldsLock → st'.listLock w = some (.worker w)) :
    WorkerOk e (Function.update own s .lost) st' w pc' g := by
  refine ⟨hpending ▸ h.nodup, fun r hr => ?_, fun r rest u k hpc hu => absurd (hun r rest u k hpc) hu,
    hlock, fun _ s' hs => absurd (hserve.symm.trans hs) nofun⟩
  rw [hpending] at hr
  have hne : r.slot ≠ s := by
    intro hs
    have := (h.pending r hr).1
    rw [hs, hown] at this
    cases this
  rw [htenancy, Function.update_of_ne hne]
  exact h.pending r hr

end Unlink

/-! ### The steps -/

/-- What a step of a worker may not do: leave the loop with connections in its bucket that it has
already unreferenced; let an event pass on values read from the slot at different times when the
values it holds now do not pass; close a connection that is not on its own list. -/
def WorkerActsOnOwn (e : Engine) (st : EpollEngine) (w : ℕ) (choice : Bool) : WorkerPc → Prop
  | .loopTest => st.serverRunning = false → st.garbage w = []
  | .check raw [] seen _ =>
      e.checkSlot (e.decode raw).egen seen w = .process →
        e.checkSlot (e.decode raw).egen (st.conn (EpollEngine.slotOf e raw)).snapshot w = .process
  | .fatal s _ => e = .udp → (st.conn s).closed = false → s ∈ st.connList w
  | .scan (some s) => choice = true → st.Scannable e s → s ∈ st.connList w
  | _ => True

section WorkerSteps

variable (hb : Base e own st) (hp : Pcs own st) (ha : ∀ a, AgentOk e own st a)

include ha in
theorem workerOk {pc : WorkerPc} (hpc : st.worker w = pc) :
    WorkerOk e own st w pc (st.garbage w) := hpc ▸ ha (.worker w)

include hb hp ha

theorem moves_inv {pc pc' : WorkerPc} (hpc : st.worker w = pc)
    (hsub : (pc'.pending (st.garbage w)).Sublist (pc.pending (st.garbage w))) (hquiet : pc'.Quiet) :
    EngineInv e (st.setWorker w pc') :=
  EngineInv.worker hb hp (fun b _ => ha b) ((workerOk ha hpc).quiet hsub hquiet)

theorem acquire_inv {pc pc' : WorkerPc} (hpc : st.worker w = pc) (hfree : st.listLock w = none)
    (hsub : (pc'.pending (st.garbage w)).Sublist (pc.pending (st.garbage w)))
    (hun : ∀ r rest u k, pc' = .unref (r :: rest) u k → u = .call) (hserve : pc'.serving = none) :
    EngineInv e ((st.setLock w (some (.worker w))).setWorker w pc') := by
  have hlocked : ∀ b, AgentOk e own (st.setLock w (some (.worker w))) b := fun b => (ha b).lock hfree
  exact EngineInv.worker { hb with } { hp with } (fun b _ => hlocked b)
    ((workerOk hlocked hpc).locked hsub hun hserve (Function.update_self ..))

theorem release_inv {pc pc' : WorkerPc} (hpc : st.worker w = pc)
    (hheld : st.listLock w = some (.worker w))
    (hsub : (pc'.pending (st.garbage w)).Sublist (pc.pending (st.garbage w))) (hquiet : pc'.Quiet) :
    EngineInv e ((st.setLock w none).setWorker w pc') := by
  have hsame : Base e own (st.setLock w none) := { hb with }
  refine EngineInv.worker hsame { hp with } (fun b hbw => (ha b).unlock hheld hbw) ?_
  have hw := (workerOk ha hpc).quiet hsub hquiet
  exact ⟨hw.nodup, hw.pending, fun r rest u k h hu => absurd (hquiet.1 r rest u k h) hu,
    fun hl => absurd hl hquiet.2.1, fun _ _ hs => absurd (hquiet.2.2.symm.trans hs) (by rintro ⟨⟩)⟩

/-- An event has passed the check, on the values that the slot holds now. -/
theorem verdict_inv {raw : BitVec 64} {seen : Snapshot} {rest : List (BitVec 64)}
    (hpc : st.worker w = .check raw [] seen rest) (hraw : raw ∈ st.issued.map Issued.raw)
    (hnow : e.checkSlot (e.decode raw).egen (st.conn (EpollEngine.slotOf e raw)).snapshot w =
      .process) :
    EngineInv e { st.setWorker w (.process (EpollEngine.slotOf e raw) rest) with
      verdicts := st.verdicts ++ [⟨w, raw, (e.decode raw).role,
        st.current (EpollEngine.slotOf e raw), st.conn (EpollEngine.slotOf e raw)⟩] } := by
  set s := EpollEngine.slotOf e raw with hs
  obtain ⟨i, hi, hiraw⟩ := List.mem_map.mp hraw
  obtain ⟨v, hown⟩ := hb.passes_listed hnow
  obtain ⟨-, hgen, -, hwidx, hclosed, hreg⟩ := Engine.checkSlot_process hnow
  have hslot := hb.slots s
  rw [hown] at hslot
  have hcurrent := hp.gen_eq ha (s := s) fun h hh => by simp [hown] at hh
  obtain ⟨henc, hlt, hrole, -, hten⟩ := hb.issued i hi
  have hdecode : e.decode raw = ⟨BitVec.ofNat 32 i.ref.slot, genOf i.ref.tenancy, i.role⟩ := by
    rw [← hiraw, henc]
    exact e.decode_epKey hlt hrole
  have hslotOf : s = i.ref.slot := by
    have hcount : e.slotCount = 1088 := by cases e <;> rfl
    rw [hs, EpollEngine.slotOf, hdecode, BitVec.toNat_ofNat, Nat.mod_eq_of_lt (by omega)]
  have hverdict : Verdict.Ok e st.tenancy st.issued
      ⟨w, raw, (e.decode raw).role, st.current s, st.conn s⟩ :=
    { issued := by
        refine ⟨i, hi, hiraw, by rw [hdecode], hslotOf.symm, ?_, ?_⟩
        · have hgen' : genOf i.ref.tenancy = (st.conn s).gen := by
            rw [hdecode] at hgen
            exact hgen
          exact hgen'.trans hcurrent
        · rw [← hslotOf] at hten
          exact hten
      tenancy := Nat.le_refl _
      registered := hreg
      closed := hclosed
      refs := hslot.1.refs
      finalized := hslot.1.finalized
      own := hwidx }
  have hbase : Base e own { st with
      verdicts := st.verdicts ++ [⟨w, raw, (e.decode raw).role, st.current s, st.conn s⟩] } :=
    { hb with
      verdicts := by
        intro v hv
        rcases List.mem_append.mp hv with hv | hv
        · exact hb.verdicts v hv
        · obtain rfl := List.mem_singleton.mp hv
          exact hverdict }
  refine EngineInv.worker hbase { hp with } (fun b _ => ?_)
    (?_ : WorkerOk e own _ w (.process s rest) _)
  · exact (ha b).frame (.of_eq rfl rfl fun _ hi => hi) (fun _ _ => ⟨rfl, rfl⟩) fun _ _ => rfl
  · have hw := workerOk ha hpc
    refine ⟨hw.nodup, hw.pending, (by rintro _ _ _ _ ⟨⟩), (by rintro ⟨⟩), ?_⟩
    rintro rfl s' ⟨⟩
    refine ⟨?_, hreg⟩
    rw [hown, ← hslot.2.2]
    exact congrArg Owner.listed (hwidx rfl)

theorem fatal_inv {s : ℕ} {rest : List (BitVec 64)} (hpc : st.worker w = .fatal s rest)
    (hown : own s = .listed w) :
    EngineInv e (((st.unlink w s).setGarbage w (st.garbage w ++ [st.current s])).setWorker w
      (.events rest)) ∧
    EngineInv e ((st.unlink w s).setWorker w (.events rest)) := by
  have hw := workerOk ha hpc
  constructor
  · refine EngineInv.workerGarbage (hb.unlink hown (Or.inl rfl)) (hp.unlink (Or.inl rfl))
      (fun b hbw => (ha b).unlink hbw hown (Or.inl rfl)) ?_
    exact hw.collect hown (List.Perm.refl _) nofun rfl rfl nofun
  · refine EngineInv.worker (hb.unlink hown (Or.inr rfl)) (hp.unlink (Or.inr rfl))
      (fun b hbw => (ha b).unlink hbw hown (Or.inr rfl)) ?_
    exact hw.lose hown rfl nofun rfl rfl nofun

/-! The scan closes a connection with room in the bucket, with a full one, and without keeping it. -/

theorem scan_inv {s : ℕ} {n : Option ℕ} (hpc : st.worker w = .scan (some s))
    (hown : own s = .listed w) :
    EngineInv e (((st.unlink w s).setGarbage w (st.garbage w ++ [st.current s])).setWorker w
      (.scan n)) ∧
    EngineInv e (((st.unlink w s).setLock w none).setWorker w
      (.unref (st.garbage w) .call (.relock (st.current s) n))) ∧
    EngineInv e ((st.unlink w s).setWorker w (.scan n)) := by
  have hw := workerOk ha hpc
  have hlock := hw.lock trivial
  refine ⟨?_, ?_, ?_⟩
  · refine EngineInv.workerGarbage (hb.unlink hown (Or.inl rfl)) (hp.unlink (Or.inl rfl))
      (fun b hbw => (ha b).unlink hbw hown (Or.inl rfl)) ?_
    exact hw.collect hown (List.Perm.refl _) (by rintro _ _ _ _ ⟨⟩) rfl rfl fun _ => hlock
  · have hbase := hb.unlink (w := w) hown (Or.inl rfl)
    have hpcs := hp.unlink (w := w) (s := s) (o := .worker w) (Or.inl rfl)
    have hunlocked : Base e (Function.update own s (.worker w)) ((st.unlink w s).setLock w none) :=
      { hbase with }
    refine EngineInv.worker hunlocked { hpcs with }
      (fun b hbw => ((ha b).unlink hbw hown (Or.inl rfl)).unlock hlock hbw) ?_
    exact hw.collect hown (List.Perm.refl _) (by simp) rfl rfl (by rintro ⟨⟩)
  · refine EngineInv.worker (hb.unlink hown (Or.inr rfl)) (hp.unlink (Or.inr rfl))
      (fun b hbw => (ha b).unlink hbw hown (Or.inr rfl)) ?_
    exact hw.lose hown rfl (by rintro _ _ _ _ ⟨⟩) rfl rfl fun _ => hlock

/-- The bucket has been emptied, and starts again with the connection that found it full. -/
theorem relock_inv {keep : Ref} {nxt : Option ℕ} (hpc : st.worker w = .relock keep nxt)
    (hfree : st.listLock w = none) :
    EngineInv e (((st.setLock w (some (.worker w))).setGarbage w [keep]).setWorker w
      (.scan nxt)) := by
  have hlocked : ∀ b, AgentOk e own (st.setLock w (some (.worker w))) b := fun b => (ha b).lock hfree
  exact EngineInv.workerGarbage { hb with } { hp with } (fun b _ => hlocked b)
    ((workerOk hlocked hpc).locked (List.Sublist.refl _) (by rintro _ _ _ _ ⟨⟩) rfl
      (Function.update_self ..))

theorem stop_inv (hpc : st.worker w = .stop) :
    EngineInv e { st.setWorker w .drainLock with
      stopping := Function.update st.stopping w true } := by
  have hmoves : EngineInv e (st.setWorker w .drainLock) :=
    moves_inv hb hp ha hpc (List.Sublist.refl _) ⟨(by rintro _ _ _ _ ⟨⟩), id, rfl⟩
  obtain ⟨own', hb', hp', ha'⟩ := hmoves
  refine ⟨own', { hb' with }, { hp' with }, fun b => ?_⟩
  exact (ha' b).frame (.of_eq rfl rfl fun _ hi => hi) (fun _ _ => ⟨rfl, rfl⟩) fun _ _ => rfl

theorem drain_inv {s : ℕ} {rest : List ℕ} {collected : List Ref}
    (hpc : st.worker w = .drain collected) (hlist : st.connList w = s :: rest) :
    (st.conn s).magic = e.magic ∧
    EngineInv e (((st.setConn s { st.conn s with closed := true }).setList w rest).setWorker w
      (.drain (collected ++ [st.current s]))) := by
  have hw := workerOk ha hpc
  have hlock := hw.lock trivial
  have hmem : s ∈ st.connList w := hlist ▸ List.mem_cons_self
  have hown := hp.listed_of_lock hb ha hmem (by simp [hlock])
  have hslot := hb.slots s
  rw [hown] at hslot
  refine ⟨hslot.1.magic, ?_⟩
  have hrest : rest = (st.connList w).erase s := by rw [hlist, List.erase_cons_head]
  rw [hrest]
  refine EngineInv.worker (hb.unlink hown (Or.inl rfl)) (hp.unlink (Or.inl rfl))
    (fun b hbw => (ha b).unlink hbw hown (Or.inl rfl)) ?_
  refine hw.collect hown ?_ nofun rfl rfl fun _ => hlock
  simp only [WorkerPc.pending, List.append_assoc]
  exact List.Perm.append_left _ List.perm_append_comm

omit hb hp in
/-- The connections besides the one that the worker is unreferencing. -/
theorem others_pending {r : Ref} {rest : List Ref} {pc : UnrefPc} {k : AfterUnref}
    (hpc : st.worker w = .unref (r :: rest) pc k) :
    ((rest ++ k.keeps (st.garbage w)).map Ref.slot).Nodup ∧
      ∀ r' ∈ rest ++ k.keeps (st.garbage w),
        (own r'.slot = .worker w ∧ st.tenancy r'.slot = r'.tenancy) ∧ r'.slot ≠ r.slot := by
  have hw := workerOk ha hpc
  by_cases hcall : pc = .call
  · have hpending : (WorkerPc.unref (r :: rest) pc k).pending (st.garbage w) =
        r :: (rest ++ k.keeps (st.garbage w)) := by simp [WorkerPc.pending, hcall]
    have hnodup := hpending ▸ hw.nodup
    obtain ⟨hnot, hnodup⟩ := List.nodup_cons.mp hnodup
    refine ⟨hnodup, fun r' hr' => ⟨hw.pending r' ?_, fun h => hnot (h ▸ List.mem_map_of_mem hr')⟩⟩
    rw [hpending]
    exact List.mem_cons_of_mem r hr'
  · have hpending : (WorkerPc.unref (r :: rest) pc k).pending (st.garbage w) =
        rest ++ k.keeps (st.garbage w) := by simp [WorkerPc.pending, hcall]
    refine ⟨hpending ▸ hw.nodup, fun r' hr' => ?_⟩
    have hr := hw.pending r' (by rwa [hpending])
    refine ⟨hr, fun h => ?_⟩
    have hfin := (hw.finalizing r rest pc k rfl hcall).1
    rw [← h, hr.1] at hfin
    cases hfin

omit hp in
theorem worker_unrefs {r : Ref} {rest : List Ref} {pc : UnrefPc} {k : AfterUnref}
    (hpc : st.worker w = .unref (r :: rest) pc k) : Unrefs e own st (.worker w) r pc := by
  have hw := workerOk ha hpc
  cases pc with
  | call =>
      obtain ⟨hown, hcur⟩ := hw.pending r (by simp [WorkerPc.pending])
      exact hb.holds hown hcur
  | exchange | poison | release | push s => exact hw.finalizing r rest _ k rfl nofun

theorem workerUnref_inv {r : Ref} {rest : List Ref} {pc : UnrefPc} {k : AfterUnref}
    (hpc : st.worker w = .unref (r :: rest) pc k) {p : EpollEngine × Option UnrefPc}
    (hstep : st.unrefStep r pc = some p) :
    EngineInv e (p.1.setWorker w (EpollEngine.afterUnref r rest k p.2)) := by
  obtain ⟨st', u⟩ := p
  obtain ⟨hnodup, hothers⟩ := others_pending ha hpc
  obtain ⟨o, hbase, hpcs, hagents, hnext, hsame⟩ :=
    unrefStep_inv hb hp (fun b _ => ha b) (worker_unrefs hb ha hpc) hstep
  have hpending : ∀ r' ∈ rest ++ k.keeps (st.garbage w),
      Function.update own r.slot o r'.slot = .worker w ∧ st'.tenancy r'.slot = r'.tenancy := by
    intro r' hr'
    obtain ⟨hr, hne⟩ := hothers r' hr'
    rwa [Function.update_of_ne hne, hsame.tenancy]
  refine EngineInv.worker hbase hpcs hagents ?_
  rw [hsame.garbage]
  cases u with
  | none =>
      have heq : (WorkerPc.unref rest .call k).pending (st.garbage w) =
          rest ++ k.keeps (st.garbage w) := by simp [WorkerPc.pending]
      refine ⟨heq ▸ hnodup, heq ▸ hpending, ?_, (by rintro ⟨⟩), (by rintro _ _ ⟨⟩)⟩
      rintro _ _ _ _ ⟨⟩ hne
      exact absurd rfl hne
  | some u =>
      obtain ⟨hne, hfin⟩ := hnext u rfl
      have heq : (WorkerPc.unref (r :: rest) u k).pending (st.garbage w) =
          rest ++ k.keeps (st.garbage w) := by simp [WorkerPc.pending, hne]
      refine ⟨heq ▸ hnodup, heq ▸ hpending, ?_, (by rintro ⟨⟩), (by rintro _ _ ⟨⟩)⟩
      rintro _ _ _ _ ⟨⟩ -
      exact hfin

end WorkerSteps

/-- Every step of a worker keeps the invariant, under the condition on its steps. -/
theorem workerStep_inv {choice : Bool} {batch : List (BitVec 64)} (hinv : EngineInv e st)
    (hdelivered : (st.worker w).Delivered e st.issued) (hcond : WorkerActsOnOwn e st w choice (st.worker w))
    (hstep : st.workerStep e w choice batch = some st') : EngineInv e st' := by
  obtain ⟨own, hb, hp, ha⟩ := hinv
  cases EpollEngine.worker_transition hstep with
  | running hpc hrunning =>
      exact EngineInv.workerGarbage hb hp (fun b _ => ha b)
        ((workerOk ha hpc).quiet (List.Sublist.refl _) ⟨(by rintro _ _ _ _ ⟨⟩), id, rfl⟩)
  | stopped hpc hstopped =>
      rw [hpc] at hcond
      refine moves_inv hb hp ha hpc ?_ ⟨(by rintro _ _ _ _ ⟨⟩), id, rfl⟩
      simp [WorkerPc.pending, hcond hstopped]
  | batchDone hpc =>
      refine moves_inv hb hp ha hpc ?_ ⟨by simp, id, rfl⟩
      simp [WorkerPc.pending, AfterUnref.keeps]
  | pass raw seen rest hpc hpass =>
      rw [hpc] at hcond
      exact verdict_inv hb hp ha hpc (hdelivered.2 raw _ _ _ hpc) (hcond hpass)
  | fatal s rest hpc hfatal =>
      have hw := workerOk ha hpc
      exact EngineInv.worker hb hp (fun b _ => ha b) ⟨hw.nodup, hw.pending, (by rintro _ _ _ _ ⟨⟩),
        (by rintro ⟨⟩), hw.serving⟩
  | lose s rest hpc hfree hopen he hfull =>
      rw [hpc] at hcond
      have hown := hp.listed_of_lock hb ha (hcond he hopen) (by simp [hfree])
      exact (fatal_inv hb hp ha hpc hown).2
  | close s rest hpc hfree hopen hroom =>
      rw [hpc] at hcond
      have hown : own s = .listed w := by
        cases e with
        | tcp => exact ((workerOk ha hpc).serving rfl s rfl).1
        | udp => exact hp.listed_of_lock hb ha (hcond rfl hopen) (by simp [hfree])
      exact (fatal_inv hb hp ha hpc hown).1
  | scanLock hpc hfree =>
      exact acquire_inv hb hp ha hpc hfree (List.Sublist.refl _) (by rintro _ _ _ _ ⟨⟩) rfl
  | scanEnd hpc =>
      refine release_inv hb hp ha hpc ((workerOk ha hpc).lock trivial) ?_ ⟨by simp, id, rfl⟩
      simp [WorkerPc.pending, AfterUnref.keeps]
  | scanClose s hpc hchoice hscan hroom =>
      rw [hpc] at hcond
      have hown := hb.listed_of_registered (hcond hchoice hscan) hscan.2.2
      exact (scan_inv hb hp ha hpc hown).1
  | scanFull s hpc hchoice hscan hfull he =>
      rw [hpc] at hcond
      have hown := hb.listed_of_registered (hcond hchoice hscan) hscan.2.2
      exact (scan_inv hb hp ha hpc hown).2.1
  | scanLose s hpc hchoice hscan hfull he =>
      rw [hpc] at hcond
      have hown := hb.listed_of_registered (hcond hchoice hscan) hscan.2.2
      exact (scan_inv hb hp ha hpc hown).2.2
  | scanSkip s hpc hskip =>
      have hw := workerOk ha hpc
      exact EngineInv.worker hb hp (fun b _ => ha b)
        (hw.locked (List.Sublist.refl _) (by rintro _ _ _ _ ⟨⟩) rfl (hw.lock trivial))
  | relock keep nxt hpc hfree => exact relock_inv hb hp ha hpc hfree
  | unref r rest u k st₁ u' hpc hunref => exact workerUnref_inv hb hp ha hpc hunref
  | loop u hpc | exit u hpc =>
      exact moves_inv hb hp ha hpc (List.nil_sublist _) ⟨(by rintro _ _ _ _ ⟨⟩), id, rfl⟩
  | scanOn u keep nxt hpc =>
      refine EngineInv.workerGarbage hb hp (fun b _ => ha b)
        ((workerOk ha hpc).quiet ?_ ⟨(by rintro _ _ _ _ ⟨⟩), id, rfl⟩)
      simp [WorkerPc.pending, AfterUnref.keeps]
  | drainOn u hpc =>
      refine moves_inv hb hp ha hpc ?_ ⟨(by rintro _ _ _ _ ⟨⟩), id, rfl⟩
      simp [WorkerPc.pending, AfterUnref.keeps]
  | drained u hpc =>
      refine moves_inv hb hp ha hpc ?_ ⟨by simp, id, rfl⟩
      simp [WorkerPc.pending, AfterUnref.keeps]
  | stop hpc hfree => exact stop_inv hb hp ha hpc
  | drainLock hpc hfree =>
      exact acquire_inv hb hp ha hpc hfree (List.Sublist.refl _) (by rintro _ _ _ _ ⟨⟩) rfl
  | drainClose collected s rest hpc hlist hroom hmagic => exact (drain_inv hb hp ha hpc hlist).2
  | drainSkip collected s rest hpc hlist hroom hmagic =>
      exact absurd (drain_inv hb hp ha hpc hlist).1 hmagic
  | drainFull collected s rest hpc | drainEnd collected hpc =>
      refine release_inv hb hp ha hpc ((workerOk ha hpc).lock trivial) ?_ ⟨by simp, id, rfl⟩
      simp [WorkerPc.pending, AfterUnref.keeps]
  | _ =>
      have hpc := ‹st.worker w = _›
      exact moves_inv hb hp ha hpc (List.Sublist.refl _) ⟨(by rintro _ _ _ _ ⟨⟩), id, rfl⟩

end FiveGProxy
