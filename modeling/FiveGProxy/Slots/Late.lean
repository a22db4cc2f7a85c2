import FiveGProxy.Slots.Discipline

/-!
# The last store of a handshake thread

A handshake thread has given its connection to a worker when it releases the lock of the list, but it
still reads `ep_u64` and sets `registered`. The worker leaves a connection alone that is not yet
registered, except when it drains its list at the end: then the slot may already be another
connection's.
-/

namespace FiveGProxy

open Steps

variable {e : Engine} {st st' : EpollEngine} {own : ℕ → Owner}

/-- A worker takes a connection off its list only after `registered` has been set: the draining at
the end does not look at it, and an event of a UDP session is not tied to the worker. -/
def TakesRegistered (e : Engine) (st : EpollEngine) (w : ℕ) : WorkerPc → Prop
  | .fatal s _ => e = .udp → (st.conn s).closed = false → (st.conn s).registered = true
  | .drain collected => ∀ s ∈ (st.connList w).head?, collected.length < maxEvents →
      (st.conn s).registered = true
  | _ => True

/-- The condition on a step, in the state before it. It says nothing of the handshake threads. -/
def TakesOwnRegistered (e : Engine) (st : EpollEngine) : EngineEvent → Prop
  | .worker w choice _ =>
      WorkerActsOnOwn e st w choice (st.worker w) ∧ TakesRegistered e st w (st.worker w)
  | .quit | .restart | .handoff .. | .handshake .. => True

instance (e : Engine) (st : EpollEngine) (w : ℕ) (pc : WorkerPc) :
    Decidable (TakesRegistered e st w pc) :=
  match pc with
  | .fatal _ _ => inferInstanceAs (Decidable (_ → _ → _))
  | .drain _ => inferInstanceAs (Decidable (∀ s ∈ (st.connList w).head?, _ → _))
  | .loopTest | .wait | .events _ | .check .. | .process .. | .scanLock | .scan _ | .relock ..
  | .unref .. | .stop | .drainLock | .exited => inferInstanceAs (Decidable True)

instance (e : Engine) (st : EpollEngine) (ev : EngineEvent) : Decidable (TakesOwnRegistered e st ev) :=
  match ev with
  | .worker w choice _ => inferInstanceAs (Decidable (WorkerActsOnOwn e st w choice (st.worker w) ∧ _))
  | .quit | .restart | .handoff .. | .handshake .. => inferInstanceAs (Decidable True)

namespace HandshakePc

def touches : HandshakePc → Option Ref
  | .prepare r .. | .setup r .. | .lock r .. | .locked r .. | .add r .. | .rollback r _ | .stamp r
  | .register r | .unref r _ => some r
  | .idle => none

def registering : HandshakePc → Option Ref
  | .stamp r | .register r => some r
  | _ => none

/-- The connection that the thread hands over, and the roles whose descriptors it still has to
register. -/
def adds : HandshakePc → Option (Ref × List FdRole)
  | .prepare r _ roles _ | .setup r _ roles | .lock r _ roles | .locked r _ roles | .add r _ roles =>
      some (r, roles)
  | .stamp r | .register r => some (r, [])
  | .idle | .rollback .. | .unref .. => none

/-- The thread is in `conn_finalize` itself. -/
def finalizing : HandshakePc → Bool
  | .unref _ .call => false
  | .unref _ _ => true
  | _ => false

end HandshakePc

/-- A connection that a thread is about to register is still on a list, and nobody else is about to
register it. -/
structure Registering (st : EpollEngine) : Prop where
  tenancy : ∀ h r, (st.handshake h).registering = some r → st.tenancy r.slot = r.tenancy
  listed : ∀ h r, (st.handshake h).registering = some r → ∃ w, r.slot ∈ st.connList w
  registered : ∀ h r, (st.handshake h).registering = some r → (st.conn r.slot).registered = false
  unique : ∀ h h' r r', (st.handshake h).registering = some r →
    (st.handshake h').registering = some r' → r.slot = r'.slot → h = h'

theorem Registering.own_eq (hreg : Registering st) (hb : Base e own st)
    (ha : ∀ a, AgentOk e own st a) {h : ℕ} {r : Ref} (hpc : (st.handshake h).registering = some r) :
    ∃ w, own r.slot = .listed w := by
  obtain ⟨w, hmem⟩ := hreg.listed h r hpc
  have hsettled : (own r.slot).Settled (st.conn r.slot) := by
    have hok : HandshakeOk e own st h (st.handshake h) := ha (.handshake h)
    cases hh : st.handshake h with
    | stamp r' | register r' =>
        rw [hh] at hpc hok
        obtain rfl : r' = r := Option.some.inj hpc
        exact hok.2 (hreg.tenancy h r' (by rw [hh]; rfl))
    | _ =>
        rw [hh] at hpc
        cases hpc
  rcases ((hb.lists w).2 r.slot).mp hmem with ho | ⟨i, ho⟩
  · exact ⟨w, ho⟩
  · rcases hsettled with ⟨v, hv⟩ | ⟨-, hnot⟩
    · exact ⟨v, hv⟩
    · exact absurd (Or.inr ⟨w, ho⟩) (hnot i)

/-- The slots that are being registered are not those of another owner. -/
theorem Registering.slot_ne (hreg : Registering st) (hb : Base e own st)
    (ha : ∀ a, AgentOk e own st a) {h s : ℕ} {r : Ref} (hpc : (st.handshake h).registering = some r)
    (hs : ∀ w, own s ≠ .listed w) : r.slot ≠ s := by
  rintro rfl
  obtain ⟨w, hw⟩ := hreg.own_eq hb ha hpc
  exact hs w hw

/-! ### The steps of a worker -/

/-- The slots that are active and registered were so before. -/
structure KeepsRegistered (st st' : EpollEngine) : Prop where
  registered : ∀ s, (st'.conn s).registered = (st.conn s).registered
  slotState : ∀ s, (st'.conn s).slotState = true → (st.conn s).slotState = true

theorem KeepsRegistered.of_eq (h : st'.conn = st.conn) : KeepsRegistered st st' :=
  ⟨fun s => by rw [h], fun s => by rw [h]; exact id⟩

theorem KeepsRegistered.update {t : ℕ} {c : Conn} (h : st'.conn = Function.update st.conn t c)
    (hreg : c.registered = (st.conn t).registered)
    (hstate : c.slotState = true → (st.conn t).slotState = true) : KeepsRegistered st st' := by
  refine ⟨fun s => ?_, fun s => ?_⟩ <;> rw [h, Function.update_apply] <;> split
  case refine_1.isTrue heq => rw [heq, hreg]
  case refine_2.isTrue heq => rwa [heq]
  case refine_1.isFalse => rfl
  case refine_2.isFalse => exact id

theorem unrefStep_registered {r : Ref} {u : UnrefPc} {p : EpollEngine × Option UnrefPc}
    (h : st.unrefStep r u = some p) : KeepsRegistered st p.1 := by
  cases u with
  | poison =>
      simp only [EpollEngine.unrefStep] at h
      split at h
      · obtain rfl := Option.some.inj h
        exact .update rfl rfl id
      · cases h
  | call | exchange =>
      obtain rfl := Option.some.inj h
      exact .update rfl rfl id
  | release =>
      obtain rfl := Option.some.inj h
      exact .update rfl rfl (by rintro ⟨⟩)
  | push t =>
      obtain rfl := Option.some.inj h
      exact .of_eq rfl

/-- A worker leaves `registered` alone, and takes only registered connections off a list. -/
theorem workerStep_registered {w : ℕ} {choice : Bool} {batch : List (BitVec 64)}
    (hinv : EngineInv e st) (htakes : TakesRegistered e st w (st.worker w))
    (hstep : st.workerStep e w choice batch = some st') :
    KeepsRegistered st st' ∧
      ∀ s v, (st.conn s).registered = false → s ∈ st.connList v → s ∈ st'.connList v := by
  obtain ⟨own, hb, hp, ha⟩ := hinv
  have hcloses : ∀ {s : ℕ} {l : List ℕ}, (st.conn s).registered = true →
      (∀ t ∈ st.connList w, t ≠ s → t ∈ l) →
      KeepsRegistered st ((st.setConn s { st.conn s with closed := true }).setList w l) ∧
      ∀ t v, (st.conn t).registered = false → t ∈ st.connList v →
        t ∈ ((st.setConn s { st.conn s with closed := true }).setList w l).connList v := by
    intro s l hs hl
    refine ⟨.update rfl rfl id, fun t v ht hmem => ?_⟩
    have hts : t ≠ s := by
      rintro rfl
      rw [hs] at ht
      cases ht
    by_cases hv : v = w
    · subst hv
      simpa [EpollEngine.setConn, EpollEngine.setList] using hl t hmem hts
    · simpa [EpollEngine.setConn, EpollEngine.setList, hv] using hmem
  have hunlink : ∀ {s : ℕ}, (st.conn s).registered = true →
      KeepsRegistered st (st.unlink w s) ∧
      ∀ t v, (st.conn t).registered = false → t ∈ st.connList v → t ∈ (st.unlink w s).connList v :=
    fun {s} hs => hcloses hs fun t ht hts => (List.mem_erase_of_ne hts).mpr ht
  cases EpollEngine.worker_transition hstep with
  | lose s rest hpc hfree hopen he hfull =>
      rw [hpc] at htakes
      obtain ⟨hkeep, hlist⟩ := hunlink (htakes he hopen)
      exact ⟨{ hkeep with }, hlist⟩
  | close s rest hpc hfree hopen hroom =>
      rw [hpc] at htakes
      have hs : (st.conn s).registered = true := by
        cases e with
        | tcp => exact ((workerOk ha hpc).serving rfl s rfl).2
        | udp => exact htakes rfl hopen
      exact ⟨{ (hunlink hs).1 with }, (hunlink hs).2⟩
  | scanClose s hpc hchoice hscan | scanFull s hpc hchoice hscan | scanLose s hpc hchoice hscan =>
      exact ⟨{ (hunlink hscan.2.2).1 with }, (hunlink hscan.2.2).2⟩
  | unref r rest u k st₁ u' hpc hunref =>
      obtain ⟨hlist, -⟩ := unrefStep_place hb (worker_unrefs hb ha hpc) hunref
      refine ⟨{ unrefStep_registered hunref with }, fun s v _ hmem => ?_⟩
      show s ∈ st₁.connList v
      rwa [hlist]
  | drainClose collected s rest hpc hlist hroom hmagic =>
      rw [hpc] at htakes
      have hmem : ∀ t ∈ st.connList w, t ≠ s → t ∈ rest := by
        intro t ht hts
        rw [hlist] at ht
        exact (List.mem_cons.mp ht).resolve_left hts
      have hs := htakes s (by rw [hlist]; rfl) hroom
      exact ⟨{ (hcloses hs hmem).1 with }, (hcloses hs hmem).2⟩
  | drainSkip collected s rest hpc hlist hroom hmagic =>
      exact absurd (drain_inv hb hp ha hpc hlist).1 hmagic
  | _ => exact ⟨.of_eq rfl, fun _ _ _ h => h⟩

/-! ### The steps of a handshake thread -/

/-- What a thread that is about to register slot `s` relies on has not changed. -/
structure SameListing (st st' : EpollEngine) (s : ℕ) : Prop where
  tenancy : st'.tenancy s = st.tenancy s
  registered : (st'.conn s).registered = (st.conn s).registered
  listed : ∀ w, s ∈ st.connList w → s ∈ st'.connList w

/-- Every role of a connection has been registered, but for `todo`. -/
def AddedBut (e : Engine) (issued : List Issued) (r : Ref) (todo : List FdRole) : Prop :=
  ∃ l ∈ e.roleLists, ∀ role ∈ l, role ∈ todo ∨ ∃ i ∈ issued, i.ref = r ∧ i.role = role

theorem AddedBut.mono {issued issued' : List Issued} {r : Ref} {todo todo' : List FdRole}
    (h : AddedBut e issued r todo) (hsub : issued ⊆ issued')
    (htodo : ∀ role ∈ todo, role ∈ todo' ∨ ∃ i ∈ issued', i.ref = r ∧ i.role = role) :
    AddedBut e issued' r todo' := by
  obtain ⟨l, hl, hroles⟩ := h
  refine ⟨l, hl, fun role hrole => ?_⟩
  rcases hroles role hrole with hr | ⟨i, hi, hir⟩
  · exact htodo role hr
  · exact Or.inr ⟨i, hsub hi, hir⟩

/-- A step of thread `h` to `pc`, as far as it bears on who may still touch a slot. -/
structure Moves (st st' : EpollEngine) (h : ℕ) (pc : HandshakePc) : Prop where
  handshake : st'.handshake = Function.update st.handshake h pc
  verdicts : st'.verdicts = st.verdicts
  issued : st.issued ⊆ st'.issued
  tenancy : st'.tenancy = st.tenancy
  touches : ∀ r, pc.touches = some r → (st.handshake h).touches = some r
  adds : ∀ r todo', pc.adds = some (r, todo') → ∃ todo, (st.handshake h).adds = some (r, todo) ∧
    ∀ role ∈ todo, role ∈ todo' ∨ ∃ i ∈ st'.issued, i.ref = r ∧ i.role = role
  active : ∀ s, (st'.conn s).slotState = true → (st'.conn s).registered = true →
    (st.conn s).slotState = true ∧ (st.conn s).registered = true ∨
      ∃ r, st.handshake h = .register r ∧ r.slot = s
  others : ∀ i r, i ≠ h → (st.handshake i).registering = some r → SameListing st st' r.slot
  self : ∀ r, pc.registering = some r → SameListing st st' r.slot ∧
    ((st.handshake h).registering = some r ∨ ∃ idx, st.handshake h = .add r idx [])

section Moves

variable {h : ℕ} {pc : HandshakePc}

theorem Moves.of_eq (hhandshake : st'.handshake = Function.update st.handshake h pc)
    (hconn : st'.conn = st.conn) (htenancy : st'.tenancy = st.tenancy)
    (hverdicts : st'.verdicts = st.verdicts) (hissued : st'.issued = st.issued)
    (hlist : ∀ w, st.connList w ⊆ st'.connList w)
    (htouches : ∀ r, pc.touches = some r → (st.handshake h).touches = some r)
    (hadds : ∀ r todo, pc.adds = some (r, todo) → (st.handshake h).adds = some (r, todo))
    (hself : ∀ r, pc.registering = some r →
      (st.handshake h).registering = some r ∨ ∃ idx, st.handshake h = .add r idx []) :
    Moves st st' h pc where
  handshake := hhandshake
  verdicts := hverdicts
  issued i hi := hissued ▸ hi
  tenancy := htenancy
  touches := htouches
  adds r todo hr := ⟨todo, hadds r todo hr, fun _ hrole => Or.inl hrole⟩
  active s hstate hreg := Or.inl (hconn ▸ ⟨hstate, hreg⟩)
  others i r _ _ := ⟨by rw [htenancy], by rw [hconn], fun w hw => hlist w hw⟩
  self r hr := ⟨⟨by rw [htenancy], by rw [hconn], fun w hw => hlist w hw⟩, hself r hr⟩

/-- A store into slot `s`, which nobody else is about to register. -/
theorem Moves.touch {s : ℕ} {c : Conn}
    (hhandshake : st'.handshake = Function.update st.handshake h pc)
    (hconn : st'.conn = Function.update st.conn s c) (htenancy : st'.tenancy = st.tenancy)
    (hverdicts : st'.verdicts = st.verdicts) (hissued : st'.issued = st.issued)
    (hlist : ∀ w t, t ≠ s → t ∈ st.connList w → t ∈ st'.connList w)
    (hapart : ∀ i r, i ≠ h → (st.handshake i).registering = some r → r.slot ≠ s)
    (hactive : c.slotState = true → c.registered = true →
      (st.conn s).slotState = true ∧ (st.conn s).registered = true ∨
        ∃ r, st.handshake h = .register r ∧ r.slot = s)
    (htouches : ∀ r, pc.touches = some r → (st.handshake h).touches = some r)
    (hadds : ∀ r todo, pc.adds = some (r, todo) → (st.handshake h).adds = some (r, todo))
    (hself : pc.registering = none) : Moves st st' h pc where
  handshake := hhandshake
  verdicts := hverdicts
  issued i hi := hissued ▸ hi
  tenancy := htenancy
  touches := htouches
  adds r todo hr := ⟨todo, hadds r todo hr, fun _ hrole => Or.inl hrole⟩
  active t := by
    rw [hconn, Function.update_apply]
    split
    case isTrue hts => exact hts ▸ hactive
    case isFalse => exact fun hstate hreg => Or.inl ⟨hstate, hreg⟩
  others i r hi hr := by
    have hne := hapart i r hi hr
    exact ⟨by rw [htenancy], by rw [hconn, Function.update_of_ne hne], fun w => hlist w _ hne⟩
  self r hr := by
    rw [hself] at hr
    cases hr

/-- Whoever is about to register a connection stays so, and nobody joins but the thread that has just
left the section under the lock. -/
theorem Registering.moves (hreg : Registering st) (hinv : EngineInv e st)
    (hm : Moves st st' h pc) : Registering st' := by
  obtain ⟨own, hb, hp, ha⟩ := hinv
  have hother : ∀ {i r}, i ≠ h → (st'.handshake i).registering = some r →
      (st.handshake i).registering = some r := by
    intro i r hi hr
    rwa [hm.handshake, Function.update_of_ne hi] at hr
  have hself : ∀ {r}, (st'.handshake h).registering = some r → pc.registering = some r := by
    intro r hr
    rwa [hm.handshake, Function.update_self] at hr
  have hadding : ∀ {r idx}, st.handshake h = .add r idx [] → own r.slot = .adding h idx ∧
      st.tenancy r.slot = r.tenancy ∧ (st.conn r.slot).Ready e r.slot idx := by
    intro r idx hpc
    obtain ⟨hown, hcur, -⟩ : HandshakeOk e own st h (.add r idx []) := hpc ▸ ha (.handshake h)
    exact ⟨hown, hcur, by simpa [hown, SlotOk] using hb.slots r.slot⟩
  have hold : ∀ {i r}, (st'.handshake i).registering = some r → SameListing st st' r.slot ∧
      st.tenancy r.slot = r.tenancy ∧ (∃ w, r.slot ∈ st.connList w) ∧
        (st.conn r.slot).registered = false := by
    intro i r hr
    by_cases hi : i = h
    · subst hi
      obtain ⟨hsame, hr | ⟨idx, hpc⟩⟩ := hm.self r (hself hr)
      · exact ⟨hsame, hreg.tenancy i r hr, hreg.listed i r hr, hreg.registered i r hr⟩
      · obtain ⟨hown, hcur, hready⟩ := hadding hpc
        exact ⟨hsame, hcur, ⟨idx, ((hb.lists idx).2 r.slot).mpr (by simp [hown])⟩, hready.registered⟩
    · have hr' := hother hi hr
      exact ⟨hm.others i r hi hr', hreg.tenancy i r hr', hreg.listed i r hr', hreg.registered i r hr'⟩
  have happ : ∀ {i r r'}, i ≠ h → (st'.handshake i).registering = some r →
      (st'.handshake h).registering = some r' → r.slot ≠ r'.slot := by
    intro i r r' hi hr hr' heq
    obtain ⟨-, hr' | ⟨idx, hpc⟩⟩ := hm.self r' (hself hr')
    · exact hi (hreg.unique i h r r' (hother hi hr) hr' heq)
    · exact hreg.slot_ne hb ha (hother hi hr) (by simp [(hadding hpc).1]) heq
  refine ⟨fun i r hr => ?_, fun i r hr => ?_, fun i r hr => ?_, fun i j r r' hr hr' heq => ?_⟩
  · obtain ⟨hsame, hcur, -⟩ := hold hr
    exact hsame.tenancy.trans hcur
  · obtain ⟨hsame, -, ⟨w, hw⟩, -⟩ := hold hr
    exact ⟨w, hsame.listed w hw⟩
  · obtain ⟨hsame, -, -, hfalse⟩ := hold hr
    exact hsame.registered.trans hfalse
  · by_cases hi : i = h <;> by_cases hj : j = h
    · rw [hi, hj]
    · exact absurd heq.symm (happ hj hr' (hi ▸ hr))
    · exact absurd heq (happ hi hr (hj ▸ hr'))
    · exact hreg.unique i j r r' (hother hi hr) (hother hj hr') heq

end Moves

theorem handshakeStep_moves {h : ℕ} {ok : Bool} (hreg : Registering st) (hinv : EngineInv e st)
    (hstep : st.handshakeStep e h ok = some st') : ∃ pc, Moves st st' h pc := by
  obtain ⟨own, hb, hp, ha⟩ := hinv
  have hok : HandshakeOk e own st h (st.handshake h) := ha (.handshake h)
  -- a slot that the thread still fills in or registers is not on the way to be registered
  have hapart : ∀ {s}, (∀ w, own s ≠ .listed w) →
      ∀ i r, i ≠ h → (st.handshake i).registering = some r → r.slot ≠ s :=
    fun hs i r _ hr => hreg.slot_ne hb ha hr hs
  have same : ∀ w, st.connList w ⊆ st.connList w := fun _ => List.Subset.refl _
  have hunrefs : ∀ {r u st₁ u'} {pc : HandshakePc}, st.handshake h = .unref r u →
      st.unrefStep r u = some (st₁, u') →
      (∀ r, pc.touches = some r → (st.handshake h).touches = some r) →
      (∀ r todo, pc.adds ≠ some (r, todo)) → (∀ r, pc.registering ≠ some r) →
      Moves st (st₁.setHandshake h pc) h pc := by
    intro r u st₁ u' pc hpc hunref htouches hadds hself
    have hframe := EpollEngine.unref_frame hunref
    obtain ⟨hlist, -⟩ := unrefStep_place hb (handshake_unrefs ha hpc) hunref
    have hkeep := unrefStep_registered hunref
    refine
      { handshake := congrArg (Function.update · h _) hframe.handshake
        verdicts := hframe.verdicts
        issued := fun i hi => hframe.issued ▸ hi
        tenancy := hframe.tenancy
        touches := htouches
        adds := fun r todo heq => absurd heq (hadds r todo)
        active := fun s hstate hregistered =>
          Or.inl ⟨hkeep.slotState s hstate, (hkeep.registered s).symm.trans hregistered⟩
        others := fun i r' _ _ =>
          ⟨congrFun hframe.tenancy _, hkeep.registered _, fun w hw => ?_⟩
        self := fun r heq => absurd heq (hself r) }
    show r'.slot ∈ st₁.connList w
    rwa [hlist]
  cases EpollEngine.handshake_transition hstep with
  | store r idx roles x todo hpc =>
      rw [hpc] at hok
      obtain ⟨hown, -, -, hprep⟩ := hok
      refine ⟨_, .touch rfl rfl rfl rfl rfl (fun _ _ _ hmem => hmem) (hapart (by simp [hown]))
        (fun hstate hregistered => ?_) (by simp [hpc, HandshakePc.touches])
        (by simp [hpc, HandshakePc.adds]) rfl⟩
      rw [hprep.next.registered hstate] at hregistered
      cases hregistered
  | prepared r idx roles hpc | setupUdp r idx roles hpc | lock r idx roles hpc =>
      exact ⟨_, .of_eq rfl rfl rfl rfl rfl same (by simp [hpc, HandshakePc.touches])
        (by simp [hpc, HandshakePc.adds]) (by rintro _ ⟨⟩)⟩
  | setupTcp r idx roles hpc he =>
      rw [hpc] at hok
      exact ⟨_, .touch rfl rfl rfl rfl rfl (fun _ _ _ hmem => hmem) (hapart (by simp [hok.1]))
        (fun hstate hregistered => Or.inl ⟨hstate, hregistered⟩)
        (by simp [hpc, HandshakePc.touches]) (by simp [hpc, HandshakePc.adds]) rfl⟩
  | setupFailed r idx roles hpc | refuse r idx roles hpc | rollback r idx hpc =>
      exact ⟨_, .of_eq rfl rfl rfl rfl rfl same (by simp [hpc,
        HandshakePc.touches]) (by rintro _ _ ⟨⟩) (by rintro _ ⟨⟩)⟩
  | enlist r idx roles hpc hrunning =>
      refine ⟨_, .of_eq rfl rfl rfl rfl rfl (fun w s hs => ?_) (by simp [hpc, HandshakePc.touches])
        (by simp [hpc, HandshakePc.adds]) (by rintro _ ⟨⟩)⟩
      by_cases hw : w = idx
      · subst hw
        simpa [EpollEngine.setHandshake, EpollEngine.setList] using Or.inr hs
      · simpa [EpollEngine.setHandshake, EpollEngine.setList, hw] using hs
  | add r idx role roles hpc =>
      exact
        ⟨_, { handshake := rfl
              verdicts := rfl
              issued := List.subset_append_left _ _
              tenancy := rfl
              touches := by simp [hpc, HandshakePc.touches]
              adds := by
                rintro r' todo' ⟨⟩
                refine ⟨role :: roles, by rw [hpc]; rfl, fun role' hrole => ?_⟩
                rcases List.mem_cons.mp hrole with rfl | hrole
                · exact Or.inr ⟨_, List.mem_append_right _ (List.mem_singleton.mpr rfl), rfl, rfl⟩
                · exact Or.inl hrole
              active := fun s hstate hregistered => Or.inl ⟨hstate, hregistered⟩
              others := fun _ _ _ _ => ⟨rfl, rfl, fun _ hmem => hmem⟩
              self := by rintro _ ⟨⟩ }⟩
  | addFailed r idx role roles hpc =>
      rw [hpc] at hok
      refine ⟨_, .touch rfl rfl rfl rfl rfl (fun w s hs hmem => ?_) (hapart (by simp [hok.1]))
        (fun hstate hregistered => Or.inl ⟨hstate, hregistered⟩)
        (by simp [hpc, HandshakePc.touches]) (by rintro _ _ ⟨⟩) rfl⟩
      by_cases hw : w = idx
      · subst hw
        simpa [EpollEngine.setHandshake, EpollEngine.setList, List.mem_erase_of_ne hs] using hmem
      · simpa [EpollEngine.setHandshake, EpollEngine.setList, EpollEngine.setConn, hw] using hmem
  | added r idx hpc =>
      refine ⟨_, .of_eq rfl rfl rfl rfl rfl same ?_ ?_ ?_⟩ <;>
        cases e <;> simp [hpc, HandshakePc.added, HandshakePc.touches, HandshakePc.adds,
          HandshakePc.registering]
  | stamp r hpc =>
      exact ⟨_, .of_eq rfl rfl rfl rfl rfl same (by simp [hpc, HandshakePc.touches])
        (by simp [hpc, HandshakePc.adds]) (by simp [hpc, HandshakePc.registering])⟩
  | register r hpc =>
      refine ⟨_, .touch rfl rfl rfl rfl rfl (fun _ _ _ hmem => hmem) (fun i r' hi hr' heq => ?_)
        (fun _ _ => Or.inr ⟨r, hpc, rfl⟩) (by rintro _ ⟨⟩) (by rintro _ _ ⟨⟩) rfl⟩
      exact hi (hreg.unique i h r' r hr' (by rw [hpc]; rfl) heq)
  | unref r u st₁ u' hpc hunref =>
      exact ⟨_, hunrefs hpc hunref (by simp [hpc, HandshakePc.touches]) (by rintro _ _ ⟨⟩)
        (by rintro _ ⟨⟩)⟩
  | finalized r u st₁ hpc hunref => exact ⟨_, hunrefs hpc hunref (by rintro _ ⟨⟩) (by rintro _ _ ⟨⟩)
      (by rintro _ ⟨⟩)⟩

/-! ### Whole runs -/

/-- Every role of a connection that is delivered to has been registered, and its handshake thread has
left it. -/
structure Adds (e : Engine) (st : EpollEngine) : Prop where
  todo : ∀ h r roles, (st.handshake h).adds = some (r, roles) → AddedBut e st.issued r roles
  active : ∀ s, (st.conn s).slotState = true → (st.conn s).registered = true →
    AddedBut e st.issued (st.current s) []
  verdicts : ∀ v ∈ st.verdicts,
    AddedBut e st.issued v.ref [] ∧ ∀ h, (st.handshake h).touches ≠ some v.ref

structure LateInv (e : Engine) (st : EpollEngine) : Prop where
  run : RunInv e st
  registering : Registering st
  adds : Adds e st

theorem LateInv.init (e : Engine) : LateInv e (EpollEngine.init e) :=
  ⟨RunInv.init e, ⟨(by rintro _ _ ⟨⟩), (by rintro _ _ ⟨⟩), (by rintro _ _ ⟨⟩),
    (by rintro _ _ _ _ ⟨⟩)⟩, ⟨(by rintro _ _ _ ⟨⟩), (by rintro _ ⟨⟩), (by rintro _ ⟨⟩)⟩⟩

theorem TakesOwnRegistered.actsOnOwn {ev : EngineEvent} (h : TakesOwnRegistered e st ev) (hinv : LateInv e st) :
    ActsOnOwn e st ev := by
  cases ev with
  | worker w choice batch => exact h.1
  | handshake i ok =>
      show HandshakeActsOnOwn st (st.handshake i)
      cases hpc : st.handshake i with
      | register r => exact hinv.registering.tenancy i r (by rw [hpc]; rfl)
      | _ => trivial
  | quit | restart | handoff i idx roles => trivial

theorem LateInv.stepHandshake {h : ℕ} {ok : Bool} (hinv : LateInv e st) (hrun : RunInv e st')
    (hstep : st.handshakeStep e h ok = some st') : LateInv e st' := by
  obtain ⟨pc, hm⟩ := handshakeStep_moves hinv.registering hinv.run.engine hstep
  refine ⟨hrun, hinv.registering.moves hinv.run.engine hm, fun i r roles hr => ?_,
    fun s hstate hreg => ?_, fun v hv => ?_⟩
  · rw [hm.handshake] at hr
    by_cases hi : i = h
    · subst hi
      rw [Function.update_self] at hr
      obtain ⟨todo, htodo, hroles⟩ := hm.adds r roles hr
      exact (hinv.adds.todo i r todo htodo).mono hm.issued hroles
    · rw [Function.update_of_ne hi] at hr
      exact (hinv.adds.todo i r roles hr).mono hm.issued fun _ hrole => Or.inl hrole
  · have hcurrent : st'.current s = st.current s := by
      rw [EpollEngine.current, EpollEngine.current, hm.tenancy]
    rw [hcurrent]
    rcases hm.active s hstate hreg with ⟨hstate', hreg'⟩ | ⟨r, hpc, rfl⟩
    · exact (hinv.adds.active s hstate' hreg').mono hm.issued nofun
    · have hcur : st.current r.slot = r := by
        rw [EpollEngine.current, hinv.registering.tenancy h r (by rw [hpc]; rfl)]
      rw [hcur]
      exact (hinv.adds.todo h r [] (by rw [hpc]; rfl)).mono hm.issued nofun
  · rw [hm.verdicts] at hv
    obtain ⟨hadded, hleft⟩ := hinv.adds.verdicts v hv
    refine ⟨hadded.mono hm.issued nofun, fun i hi => ?_⟩
    rw [hm.handshake] at hi
    by_cases hih : i = h
    · subst hih
      rw [Function.update_self] at hi
      exact hleft i (hm.touches v.ref hi)
    · rw [Function.update_of_ne hih] at hi
      exact hleft i hi

/-- A thread that is not in `conn_finalize` touches a connection that is still its own, or that is on
a list and not yet registered. -/
theorem HandshakePc.touches_own {h : ℕ} {r : Ref} {pc : HandshakePc}
    (hok : HandshakeOk e own st h pc) (ht : pc.touches = some r) :
    pc.registering = some r ∨ (own r.slot).HeldBy (.handshake h) ∧ st.tenancy r.slot = r.tenancy ∧
      (pc.finalizing = false → (own r.slot).OfThread h) := by
  cases pc with
  | idle => cases ht
  | stamp r' | register r' => exact Or.inl ht
  | prepare r' | setup r' | lock r' | locked r' | rollback r' =>
      obtain rfl := Option.some.inj ht
      exact Or.inr ⟨Or.inl (Or.inl hok.1), hok.2.1, fun _ => Or.inl hok.1⟩
  | add r' idx roles =>
      obtain rfl := Option.some.inj ht
      exact Or.inr ⟨Or.inl (Or.inr ⟨idx, hok.1⟩), hok.2.1, fun _ => Or.inr ⟨idx, hok.1⟩⟩
  | unref r' pc =>
      obtain rfl := Option.some.inj ht
      cases pc with
      | call => exact Or.inr ⟨Or.inl (Or.inl hok.1), hok.2.1, fun _ => Or.inl hok.1⟩
      | exchange | poison | release | push s =>
          exact Or.inr ⟨Or.inr hok.1, hok.2.2.1, nofun⟩

/-- What a step of a worker adds to the log of the events that passed. -/
theorem workerStep_verdicts {w : ℕ} {choice : Bool} {batch : List (BitVec 64)}
    (hstep : st.workerStep e w choice batch = some st') :
    st'.verdicts = st.verdicts ∨ ∃ raw seen rest, st.worker w = .check raw [] seen rest ∧
      e.checkSlot (e.decode raw).egen seen w = .process ∧
        st'.verdicts = st.verdicts ++ [⟨w, raw, (e.decode raw).role,
          st.current (EpollEngine.slotOf e raw), st.conn (EpollEngine.slotOf e raw)⟩] := by
  cases EpollEngine.worker_transition hstep with
  | pass raw seen rest hpc hpass => exact Or.inr ⟨raw, seen, rest, hpc, hpass, rfl⟩
  | unref r rest u k st₁ u' hpc hunref => exact Or.inl (EpollEngine.unref_frame hunref).verdicts
  | _ => exact Or.inl rfl

theorem LateInv.stepWorker {w : ℕ} {choice : Bool} {batch : List (BitVec 64)} (hinv : LateInv e st)
    (hcond : WorkerActsOnOwn e st w choice (st.worker w))
    (htakes : TakesRegistered e st w (st.worker w)) (hrun : RunInv e st')
    (hstep : st.workerStep e w choice batch = some st') : LateInv e st' := by
  obtain ⟨hhandshake, hissued, htenancy, -⟩ := workerStep_same (hinv.run.delivered w) hstep
  obtain ⟨hkeep, hlisted⟩ := workerStep_registered hinv.run.engine htakes hstep
  have hold : ∀ v ∈ st.verdicts, AddedBut e st'.issued v.ref [] ∧
      ∀ h, (st'.handshake h).touches ≠ some v.ref := by
    rw [hissued, hhandshake]
    exact hinv.adds.verdicts
  have hactive : ∀ s, (st.conn s).slotState = true → (st.conn s).registered = true →
      AddedBut e st'.issued (st.current s) [] := by
    rw [hissued]
    exact hinv.adds.active
  refine ⟨hrun, ⟨fun h r hr => ?_, fun h r hr => ?_, fun h r hr => ?_, ?_⟩, ?_, fun s hstate hreg => ?_,
    ?_⟩
  · rw [hhandshake] at hr
    rw [htenancy]
    exact hinv.registering.tenancy h r hr
  · rw [hhandshake] at hr
    obtain ⟨v, hv⟩ := hinv.registering.listed h r hr
    exact ⟨v, hlisted r.slot v (hinv.registering.registered h r hr) hv⟩
  · rw [hhandshake] at hr
    rw [hkeep.registered]
    exact hinv.registering.registered h r hr
  · rw [hhandshake]
    exact hinv.registering.unique
  · rw [hhandshake, hissued]
    exact hinv.adds.todo
  · have hcurrent : st'.current s = st.current s := by
      rw [EpollEngine.current, EpollEngine.current, htenancy]
    rw [hcurrent]
    exact hactive s (hkeep.slotState s hstate) ((hkeep.registered s).symm.trans hreg)
  · rcases workerStep_verdicts hstep with hsame | ⟨raw, seen, rest, hpc, hpass, hnew⟩
    · rwa [hsame]
    · rw [hnew]
      intro v hv
      rcases List.mem_append.mp hv with hv | hv
      · exact hold v hv
      obtain rfl := List.mem_singleton.mp hv
      rw [hpc] at hcond
      have hnow := hcond hpass
      obtain ⟨hstate, -, -, -, -, hreg⟩ := Engine.checkSlot_process hnow
      refine ⟨hactive _ hstate hreg, fun h ht => ?_⟩
      rw [hhandshake] at ht
      obtain ⟨own, hb, -, ha⟩ := hinv.run.engine
      obtain ⟨i, hown⟩ := hb.passes_listed hnow
      have hok : HandshakeOk e own st h (st.handshake h) := ha (.handshake h)
      rcases HandshakePc.touches_own hok ht with hr | ⟨hheld, -⟩
      · exact absurd ((hinv.registering.registered h _ hr).symm.trans hreg) (by decide)
      · exact absurd (hheld.unique (b := .worker i) (Or.inl hown)) (by simp)

theorem LateInv.stepHandoff {h idx : ℕ} {roles : List FdRole} (hinv : LateInv e st)
    (hrun : RunInv e st') (hstep : st.handoffStep e h idx roles = some st') : LateInv e st' := by
  unfold EpollEngine.handoffStep at hstep
  split at hstep
  case isFalse => cases hstep
  case isTrue hready =>
    obtain ⟨hidle, -, -, hroles⟩ := hready
    split at hstep
    case h_1 =>
      obtain rfl := Option.some.inj hstep
      exact hinv
    case h_2 s rest hfree =>
      obtain rfl := Option.some.inj hstep
      obtain ⟨own, hb, -, ha⟩ := hinv.run.engine
      have hown : own s = .free := (hb.free.2 s (hfree ▸ List.mem_cons_self)).1
      have hinactive : (st.conn s).slotState = false := by simpa [hown, SlotOk] using hb.slots s
      have hne : ∀ {i r}, (st.handshake i).registering = some r → r.slot ≠ s := fun hr =>
        hinv.registering.slot_ne hb ha hr (by simp [hown])
      have hother : ∀ {i}, i ≠ h → ∀ {pc}, Function.update st.handshake h pc i = st.handshake i :=
        fun hi => Function.update_of_ne hi _ _
      have hregistering : ∀ {i r pc}, HandshakePc.registering pc = none →
          (Function.update st.handshake h pc i).registering = some r →
            (st.handshake i).registering = some r := by
        intro i r pc hpc hr
        by_cases hi : i = h
        · subst hi
          rw [Function.update_self, hpc] at hr
          cases hr
        · rwa [hother hi] at hr
      refine ⟨hrun, ⟨fun i r hr => ?_, fun i r hr => ?_, fun i r hr => ?_, fun i j r r' hr hr' => ?_⟩,
        fun i r todo hr => ?_, fun t hstate hreg => ?_, fun v hv => ?_⟩
      · have hr := hregistering rfl hr
        dsimp only
        rw [Function.update_of_ne (hne hr)]
        exact hinv.registering.tenancy i r hr
      · exact hinv.registering.listed i r (hregistering rfl hr)
      · have hr := hregistering rfl hr
        dsimp only [EpollEngine.setHandshake, EpollEngine.setConn]
        rw [Function.update_of_ne (hne hr)]
        exact hinv.registering.registered i r hr
      · exact hinv.registering.unique i j r r' (hregistering rfl hr) (hregistering rfl hr')
      · dsimp only [EpollEngine.setHandshake, EpollEngine.setConn] at hr ⊢
        by_cases hi : i = h
        · subst hi
          rw [Function.update_self] at hr
          obtain ⟨rfl, rfl⟩ : _ = r ∧ roles = todo := by simpa [HandshakePc.adds] using hr
          exact ⟨roles, hroles, fun _ hrole => Or.inl hrole⟩
        · rw [hother hi] at hr
          exact hinv.adds.todo i r todo hr
      · dsimp only [EpollEngine.setHandshake, EpollEngine.setConn, EpollEngine.current] at hstate hreg ⊢
        by_cases ht : t = s
        · subst ht
          rw [Function.update_self] at hstate
          exact absurd (hinactive.symm.trans hstate) (by decide)
        · rw [Function.update_of_ne ht] at hstate hreg ⊢
          exact hinv.adds.active t hstate hreg
      · obtain ⟨hadded, hleft⟩ := hinv.adds.verdicts v hv
        refine ⟨hadded, fun i hi => ?_⟩
        dsimp only [EpollEngine.setHandshake, EpollEngine.setConn] at hi
        by_cases hih : i = h
        · subst hih
          rw [Function.update_self] at hi
          have href : (⟨s, st.tenancy s + 1⟩ : Ref) = v.ref := Option.some.inj hi
          have hle := (hb.verdicts v hv).tenancy
          rw [← href] at hle
          exact absurd hle (Nat.not_succ_le_self _)
        · rw [hother hih] at hi
          exact hleft i hi

theorem LateInv.restart (hinv : LateInv e st) (hrun : RunInv e (st.slotsInit e)) :
    LateInv e (st.slotsInit e) :=
  ⟨hrun, ⟨nofun, nofun, nofun, nofun⟩, nofun, nofun, fun v hv => ⟨(hinv.adds.verdicts v hv).1, nofun⟩⟩

theorem LateInv.step {ev : EngineEvent} (hinv : LateInv e st) (hcond : TakesOwnRegistered e st ev)
    (hstep : engineStep e st ev = some st') : LateInv e st' := by
  have hrun := hinv.run.step (hcond.actsOnOwn hinv) hstep
  cases ev with
  | quit =>
      obtain rfl := Option.some.inj hstep
      exact ⟨hrun, { hinv.registering with }, { hinv.adds with }⟩
  | restart =>
      simp only [engineStep] at hstep
      split at hstep
      case isTrue =>
        obtain rfl := Option.some.inj hstep
        exact hinv.restart hrun
      case isFalse => cases hstep
  | handoff i idx roles => exact hinv.stepHandoff hrun hstep
  | handshake i ok => exact hinv.stepHandshake hrun hstep
  | worker w choice batch =>
      simp only [engineStep] at hstep
      split at hstep
      case isFalse => cases hstep
      case isTrue => exact hinv.stepWorker hcond.1 hcond.2 hrun hstep

/-! ### A thread touches its own connection only -/

/-- A handshake thread reads and writes a slot only while its connection has it: it is not free, has
not passed on, and, unless the thread finalizes it itself, has not been unreferenced. An event passes
only for a connection with all roles registered, which no handshake thread touches any more. -/
structure TouchesOwn (e : Engine) (st : EpollEngine) : Prop where
  tenancy : ∀ h r, (st.handshake h).touches = some r → st.tenancy r.slot = r.tenancy
  taken : ∀ h r, (st.handshake h).touches = some r → r.slot ∉ st.freeSlots
  alive : ∀ h r, (st.handshake h).touches = some r → (st.handshake h).finalizing = false →
    ∀ u ∈ st.unrefs, u.ref.slot = r.slot → u.appliedTo ≠ r.tenancy
  added : ∀ v ∈ st.verdicts,
    ∃ l ∈ e.roleLists, ∀ role ∈ l, ∃ i ∈ st.issued, i.ref = v.ref ∧ i.role = role
  left : ∀ v ∈ st.verdicts, ∀ h, (st.handshake h).touches ≠ some v.ref

theorem LateInv.touchesOwn (hinv : LateInv e st) : TouchesOwn e st := by
  obtain ⟨own, hb, -, ha⟩ := hinv.run.engine
  have howner : ∀ {h r}, (st.handshake h).touches = some r → st.tenancy r.slot = r.tenancy ∧
      own r.slot ≠ .free ∧ ((st.handshake h).finalizing = false → ¬ (own r.slot).Ended) := by
    intro h r hr
    have hok : HandshakeOk e own st h (st.handshake h) := ha (.handshake h)
    rcases HandshakePc.touches_own hok hr with hreg | ⟨hheld, hcur, hthread⟩
    · obtain ⟨w, hw⟩ := hinv.registering.own_eq hb ha hreg
      exact ⟨hinv.registering.tenancy h r hreg, by simp [hw], by simp [hw, Owner.Ended]⟩
    · refine ⟨hcur, fun hfree => ?_, fun hfin => ?_⟩
      · simp [hfree, Owner.HeldBy, Owner.OfThread] at hheld
      · rcases hthread hfin with ho | ⟨w, ho⟩ <;> simp [ho, Owner.Ended]
  refine ⟨fun h r hr => (howner hr).1, fun h r hr hmem => (howner hr).2.1 (hb.free.2 _ hmem).1,
    fun h r hr hfin u hu hslot happ => ?_, fun v hv => ?_, fun v hv => (hinv.adds.verdicts v hv).2⟩
  · obtain ⟨hcur, -, hnot⟩ := howner hr
    obtain ⟨hsame, -, hended⟩ := hb.logged u hu
    have := hended (hsame.symm.trans (happ.trans (hslot ▸ hcur.symm)))
    rw [hslot] at this
    exact hnot hfin this
  · obtain ⟨⟨l, hl, hroles⟩, -⟩ := hinv.adds.verdicts v hv
    exact ⟨l, hl, fun role hrole => (hroles role hrole).resolve_left List.not_mem_nil⟩

/-- In every run whose steps meet the condition no handshake thread touches a slot whose tenancy has
ended. -/
theorem handshake_touches_own {evs : List EngineEvent}
    (hmeets : Meets (engineStep e) (TakesOwnRegistered e) (EpollEngine.init e) evs)
    (hrun : run (engineStep e) (EpollEngine.init e) evs = some st) : TouchesOwn e st :=
  (run_invariant_of_meets (P := LateInv e) (fun _ _ _ h hcond hstep => h.step hcond hstep)
    (LateInv.init e) hmeets hrun).touchesOwn

theorem handshake_touches_own_secondTenancy :
    ∃ st, run (engineStep .tcp) (EpollEngine.init .tcp) secondTenancy = some st ∧
      st.verdicts.map Verdict.ref = [⟨1087, 1⟩, ⟨1087, 2⟩] ∧ TouchesOwn .tcp st := by
  obtain ⟨st, hst, hverdicts⟩ := exists_run_of_any (by decide +kernel :
    (run (engineStep .tcp) (EpollEngine.init .tcp) secondTenancy).any
      (fun st => decide (st.verdicts.map Verdict.ref = [⟨1087, 1⟩, ⟨1087, 2⟩])) = true)
  exact ⟨st, hst, hverdicts, handshake_touches_own (by decide +kernel) hst⟩

/-- Thread 0 is about to set `registered`; worker 0 drains its list and finalizes the connection, and
thread 1 gets the slot. -/
def drainBeforeRegister : List EngineEvent :=
  List.flatten [[.handoff 0 0 [.client, .target]], List.replicate 18 (.handshake 0 true), [.quit],
    List.replicate 11 (.worker 0 true []), [.handoff 1 1 [.client, .target]]]

/-- Thread 0 sets `registered` in the slot of thread 1. -/
theorem registers_for_other_thread : ∃ st,
    run (engineStep .tcp) (EpollEngine.init .tcp) drainBeforeRegister = some st ∧
      ¬ TouchesOwn .tcp st := by
  obtain ⟨st, hst, hpc⟩ := Option.map_eq_some_iff.mp
    (by decide +kernel :
      (run (engineStep .tcp) (EpollEngine.init .tcp) drainBeforeRegister).map
        (fun st => (st.handshake 0, st.tenancy 1087)) = some (.register ⟨1087, 1⟩, 2))
  obtain ⟨hregister, htenancy⟩ := Prod.mk.inj hpc
  refine ⟨st, hst, fun h => ?_⟩
  have hcur := h.tenancy 0 ⟨1087, 1⟩ (by rw [hregister]; rfl)
  exact absurd (htenancy.symm.trans hcur) (by decide)

end FiveGProxy
