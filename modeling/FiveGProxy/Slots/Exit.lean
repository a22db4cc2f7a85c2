import FiveGProxy.Slots.Discipline

/-!
# The end of a worker

A worker that leaves its loop sets `stopping`, empties its list in batches and closes its epoll
descriptor, while handshake threads go on handing connections to it. Both the registration and the
store to `stopping` are made under the lock of the list, so nothing reaches the list afterwards.
-/

namespace FiveGProxy

open Steps

/-! ### The epoll descriptor -/

namespace WorkerPc

/-- The worker has set `stopping`. -/
def Leaving : WorkerPc → Prop
  | .drainLock | .drain _ | .unref _ _ (.drained _) | .unref _ _ .close | .exited => True
  | _ => False

/-- The worker has found its list empty, with `stopping` set. -/
def Drained : WorkerPc → Prop
  | .unref _ _ (.drained false) | .unref _ _ .close | .exited => True
  | _ => False

theorem leaving_unref {l l' : List Ref} {u u' : UnrefPc} {k : AfterUnref}
    (h : (WorkerPc.unref l u k).Leaving) : (WorkerPc.unref l' u' k).Leaving := by
  cases k <;> exact h

theorem drained_unref {l l' : List Ref} {u u' : UnrefPc} {k : AfterUnref}
    (h : (WorkerPc.unref l u k).Drained) : (WorkerPc.unref l' u' k).Drained := by
  rcases k with _ | _ | (_ | _) | _ <;> exact h

theorem Drained.leaving {pc : WorkerPc} (h : pc.Drained) : pc.Leaving := by
  unfold Drained at h
  split at h <;> first | exact h.elim | trivial

end WorkerPc

variable {st st' : EpollEngine} {e : Engine}

/-- Nothing is registered with a worker once it has set `stopping`. -/
structure StopOk (st : EpollEngine) : Prop where
  stopping : ∀ w, (st.worker w).Leaving → st.stopping w = true
  adding : ∀ h r idx roles, st.handshake h = .add r idx roles → st.stopping idx = false
  empty : ∀ w, (st.worker w).Drained → st.connList w = []

theorem StopOk.noLateAdd (h : StopOk st) {i idx : ℕ} {r : Ref} {roles : List FdRole}
    (hpc : st.handshake i = .add r idx roles) : st.worker idx ≠ .exited := by
  intro hexit
  have hstop := h.stopping idx (by rw [hexit]; trivial)
  rw [h.adding i r idx roles hpc] at hstop
  cases hstop

theorem StopOk.init (e : Engine) : StopOk (EpollEngine.init e) := ⟨nofun, nofun, nofun⟩

theorem unrefStep_connList {r : Ref} {pc : UnrefPc} {p : EpollEngine × Option UnrefPc}
    (h : st.unrefStep r pc = some p) {w : ℕ} (hw : st.connList w = []) : p.1.connList w = [] := by
  cases pc with
  | poison =>
      simp only [EpollEngine.unrefStep] at h
      split at h
      · obtain rfl := Option.some.inj h
        simp only [EpollEngine.setList, EpollEngine.setConn, Function.update_apply]
        split <;> simp_all
      · cases h
  | call | exchange | release | push s =>
      obtain rfl := Option.some.inj h
      exact hw

/-- A step of handshake thread `h`, as far as the end of a worker is concerned. -/
theorem StopOk.handshake {h : ℕ} {ok : Bool} (hok : StopOk st)
    (hstep : st.handshakeStep e h ok = some st') : StopOk st' := by
  obtain ⟨hstopping, hadding, hempty⟩ := hok
  have keep : ∀ {st₁ : EpollEngine} {pc : HandshakePc}, st₁.worker = st.worker →
      st₁.stopping = st.stopping → st₁.handshake = Function.update st.handshake h pc →
      (∀ w, st.connList w = [] → st₁.connList w = []) →
      (∀ r idx roles, pc = .add r idx roles → st.stopping idx = false) → StopOk st₁ := by
    intro st₁ pc hw hs hh hl ha
    refine ⟨fun w => by rw [hw, hs]; exact hstopping w, fun i r idx roles hi => ?_, fun w => ?_⟩
    · rw [hs]
      by_cases hih : i = h
      · subst hih
        rw [hh, Function.update_self] at hi
        exact ha r idx roles hi
      · rw [hh, Function.update_of_ne hih] at hi
        exact hadding i r idx roles hi
    · rw [hw]
      exact fun hd => hl w (hempty w hd)
  have unrefs : ∀ {r u st₁ u'} {pc : HandshakePc}, st.unrefStep r u = some (st₁, u') →
      (∀ r idx roles, pc ≠ .add r idx roles) → StopOk (st₁.setHandshake h pc) := by
    intro r u st₁ u' pc hunref hother
    have hframe := EpollEngine.unref_frame hunref
    exact keep hframe.worker hframe.stopping (congrArg (Function.update · h _) hframe.handshake)
      (fun _ hl => unrefStep_connList hunref hl) fun r idx roles heq => absurd heq (hother r idx roles)
  cases EpollEngine.handshake_transition hstep with
  | enlist r idx roles hpc hrunning =>
      refine ⟨hstopping, fun i r' idx' roles' hi => ?_, fun w hd => ?_⟩
      · by_cases hih : i = h
        · subst hih
          obtain ⟨-, rfl, -⟩ : r = r' ∧ idx = idx' ∧ roles = roles' := by
            simpa [EpollEngine.setHandshake] using hi
          exact hrunning
        · exact hadding i r' idx' roles' (by simpa [EpollEngine.setHandshake,
            EpollEngine.setList, hih] using hi)
      · have hne : w ≠ idx := by
          rintro rfl
          rw [hstopping w (WorkerPc.Drained.leaving hd)] at hrunning
          cases hrunning
        simpa [EpollEngine.setHandshake, EpollEngine.setList, hne] using hempty w hd
  | add r idx role roles hpc =>
      refine keep rfl rfl rfl (fun _ hl => hl) fun r' idx' roles' heq => ?_
      obtain ⟨rfl, rfl, -⟩ : r = r' ∧ idx = idx' ∧ roles = roles' := by simpa using heq
      exact hadding h r idx _ hpc
  | addFailed r idx role roles hpc =>
      refine keep rfl rfl rfl (fun w hl => ?_) (by rintro _ _ _ ⟨⟩)
      simp only [EpollEngine.setHandshake, EpollEngine.setList, EpollEngine.setConn,
        Function.update_apply]
      split <;> simp_all
  | added r idx hpc => exact keep rfl rfl rfl (fun _ hl => hl) (by cases e <;> rintro _ _ _ ⟨⟩)
  | unref r u st₁ u' hpc hunref => exact unrefs hunref (by rintro _ _ _ ⟨⟩)
  | finalized r u st₁ hpc hunref => exact unrefs hunref (by rintro _ _ _ ⟨⟩)
  | _ => exact keep rfl rfl rfl (fun _ hl => hl) (by rintro _ _ _ ⟨⟩)

/-- A step of worker `w`: it sets `stopping` only when no thread is registering. -/
theorem StopOk.worker {w : ℕ} {choice : Bool} {batch : List (BitVec 64)} (hok : StopOk st)
    (hinv : EngineInv e st) (hstep : st.workerStep e w choice batch = some st') : StopOk st' := by
  obtain ⟨hstopping, hadding, hempty⟩ := hok
  obtain ⟨own, hb, hp, ha⟩ := hinv
  have keep : ∀ {st₁ : EpollEngine} {pc : WorkerPc}, st₁.handshake = st.handshake →
      st₁.stopping = st.stopping → st₁.worker = Function.update st.worker w pc →
      (∀ v, st.connList v = [] → st₁.connList v = []) →
      (pc.Leaving → (st.worker w).Leaving) → (pc.Drained → st₁.connList w = []) → StopOk st₁ := by
    intro st₁ pc hh hs hw hl hleave hdrain
    refine ⟨fun v hv => ?_, fun i r idx roles hi => ?_, fun v hv => ?_⟩
    · rw [hs]
      by_cases hvw : v = w
      · subst hvw
        rw [hw, Function.update_self] at hv
        exact hstopping v (hleave hv)
      · rw [hw, Function.update_of_ne hvw] at hv
        exact hstopping v hv
    · rw [hs]
      exact hadding i r idx roles (hh ▸ hi)
    · by_cases hvw : v = w
      · subst hvw
        rw [hw, Function.update_self] at hv
        exact hdrain hv
      · rw [hw, Function.update_of_ne hvw] at hv
        exact hl v (hempty v hv)
  have hunlink : ∀ s v, st.connList v = [] → (st.unlink w s).connList v = [] := by
    intro s v hv
    simp only [EpollEngine.unlink, EpollEngine.setList, EpollEngine.setConn, Function.update_apply]
    split <;> simp_all
  have htail : ∀ {s rest}, st.connList w = s :: rest →
      ∀ v, st.connList v = [] → Function.update st.connList w rest v = [] := by
    intro s rest hlist v hv
    have hne : v ≠ w := by
      rintro rfl
      rw [hlist] at hv
      cases hv
    rw [Function.update_of_ne hne]
    exact hv
  cases EpollEngine.worker_transition hstep with
  | lose s rest hpc | close s rest hpc | scanClose s hpc | scanFull s hpc | scanLose s hpc =>
      exact keep rfl rfl rfl (hunlink s) (by rintro ⟨⟩) (by rintro ⟨⟩)
  | unref r rest u k st₁ u' hpc hunref =>
      have hframe := EpollEngine.unref_frame hunref
      have hlist := fun w => unrefStep_connList hunref (w := w)
      refine keep hframe.handshake hframe.stopping
        (congrArg (Function.update · w _) hframe.worker) hlist ?_ ?_
      · rw [hpc]
        cases u' <;> exact WorkerPc.leaving_unref
      · refine fun hd => hlist w (hempty w ?_)
        rw [hpc]
        cases u' <;> exact WorkerPc.drained_unref hd
  | drainOn u hpc => exact keep rfl rfl rfl (fun _ hl => hl) (fun _ => by rw [hpc]; trivial) (by rintro ⟨⟩)
  | drained u hpc =>
      exact keep rfl rfl rfl (fun _ hl => hl) (fun _ => by rw [hpc]; trivial)
        fun _ => hempty w (by rw [hpc]; trivial)
  | exit u hpc =>
      exact keep rfl rfl rfl (fun _ hl => hl) (fun _ => by rw [hpc]; trivial)
        fun _ => hempty w (by rw [hpc]; trivial)
  | stop hpc hfree =>
      refine ⟨fun v hv => ?_, fun i r idx roles hi => ?_, fun v hv => ?_⟩
      · dsimp only
        by_cases hvw : v = w
        · simp [hvw]
        · rw [Function.update_of_ne hvw]
          exact hstopping v (by simpa [EpollEngine.setWorker, hvw] using hv)
      · have hne : idx ≠ w := by
          rintro rfl
          have hok : HandshakeOk e own st i (.add r idx roles) := hi ▸ ha (.handshake i)
          rw [hok.2.2.2] at hfree
          cases hfree
        dsimp only
        rw [Function.update_of_ne hne]
        exact hadding i r idx roles hi
      · by_cases hvw : v = w
        · subst hvw
          simp [EpollEngine.setWorker, WorkerPc.Drained] at hv
        · exact hempty v (by simpa [EpollEngine.setWorker, hvw] using hv)
  | drainLock hpc => exact keep rfl rfl rfl (fun _ hl => hl) (fun _ => by rw [hpc]; trivial) (by rintro ⟨⟩)
  | drainClose collected s rest hpc hlist =>
      exact keep rfl rfl rfl (htail hlist) (fun _ => by rw [hpc]; trivial) (by rintro ⟨⟩)
  | drainSkip collected s rest hpc hlist =>
      exact keep rfl rfl rfl (htail hlist) (fun _ => by rw [hpc]; trivial) (by rintro ⟨⟩)
  | drainFull collected s rest hpc =>
      exact keep rfl rfl rfl (fun _ hl => hl) (fun _ => by rw [hpc]; trivial) (by rintro ⟨⟩)
  | drainEnd collected hpc hlist =>
      exact keep rfl rfl rfl (fun _ hl => hl) (fun _ => by rw [hpc]; trivial) fun _ => hlist
  | _ => exact keep rfl rfl rfl (fun _ hl => hl) (by rintro ⟨⟩) (by rintro ⟨⟩)

theorem StopOk.step {ev : EngineEvent} (hok : StopOk st) (hinv : EngineInv e st)
    (hstep : engineStep e st ev = some st') : StopOk st' := by
  cases ev with
  | quit =>
      obtain rfl := Option.some.inj hstep
      exact ⟨hok.stopping, hok.adding, hok.empty⟩
  | restart =>
      simp only [engineStep] at hstep
      split at hstep
      · obtain rfl := Option.some.inj hstep
        exact ⟨by rintro _ ⟨⟩, by rintro _ _ _ _ ⟨⟩, by rintro _ ⟨⟩⟩
      · cases hstep
  | handoff h idx roles =>
      simp only [engineStep, EpollEngine.handoffStep] at hstep
      split at hstep
      · split at hstep
        · obtain rfl := Option.some.inj hstep
          exact hok
        · obtain rfl := Option.some.inj hstep
          refine ⟨hok.stopping, fun i r idx' roles' hi => ?_, hok.empty⟩
          by_cases hih : i = h
          · simp [EpollEngine.setHandshake, hih] at hi
          · exact hok.adding i r idx' roles' (by simpa [EpollEngine.setHandshake,
              EpollEngine.setConn, hih] using hi)
      · cases hstep
  | handshake h ok => exact hok.handshake hstep
  | worker w choice batch =>
      simp only [engineStep] at hstep
      split at hstep
      · exact hok.worker hinv hstep
      · cases hstep

end FiveGProxy
