import FiveGProxy.Slots.Ownership

/-!
# Dropping the reference

`conn_unref` takes the one reference of a connection from the thread that holds it, and the thread
then runs `conn_finalize` alone: the slot goes from its holder to `ending`, and with the last step
to the stack of free slots.
-/

namespace FiveGProxy

open Steps

def Agent.holder : Agent → Owner
  | .worker w => .worker w
  | .handshake h => .thread h

theorem Agent.holder_heldBy (a : Agent) : a.holder.HeldBy a := by
  cases a with
  | worker w => exact Or.inr (Or.inl rfl)
  | handshake h => exact Or.inl (Or.inl rfl)

theorem Agent.ending_heldBy (a : Agent) : (Owner.ending a).HeldBy a := by
  cases a with
  | worker w => exact Or.inr (Or.inr rfl)
  | handshake h => exact Or.inr rfl

@[simp] theorem Agent.holder_not_inList (a : Agent) (w : ℕ) : ¬ a.holder.InList w := by
  cases a <;> simp [holder]

theorem Agent.holder_not_ended (a : Agent) : ¬ a.holder.Ended := by
  cases a <;> simp [holder, Owner.Ended]

theorem Agent.holder_ne_free (a : Agent) : a.holder ≠ .free := fun h =>
  a.holder_not_ended (Or.inl h)

@[simp] theorem Owner.ending_ended (a : Agent) : (Owner.ending a).Ended := Or.inr ⟨a, rfl⟩

theorem Owner.ending_settled {a : Agent} {c : Conn} (h : c.closed = true) :
    (Owner.ending a).Settled c := Or.inr ⟨h, by simp [OfThread]⟩

/-- A thread that has dropped the connection from its holding settles it only when it is closed. -/
theorem Agent.holder_settled {a : Agent} {c : Conn} (h : a.holder.Settled c) : c.closed = true := by
  rcases h with ⟨w, hw⟩ | h
  · cases a <;> simp [holder] at hw
  · exact h.1

theorem Owner.ending_settled_closed {a : Agent} {c : Conn} (h : (Owner.ending a).Settled c) :
    c.closed = true := by
  rcases h with ⟨w, hw⟩ | h
  · cases hw
  · exact h.1

/-- Agent `a` may call `conn_unref` on `r`. -/
structure Holds (e : Engine) (own : ℕ → Owner) (st : EpollEngine) (a : Agent) (r : Ref) : Prop where
  own : own r.slot = a.holder
  tenancy : st.tenancy r.slot = r.tenancy
  held : (st.conn r.slot).Held e r.slot
  closed : (st.conn r.slot).closed = true ∨ (st.conn r.slot).registered = false

/-- What agent `a` relies on for the call of `conn_unref` that it is in. -/
def Unrefs (e : Engine) (own : ℕ → Owner) (st : EpollEngine) (a : Agent) (r : Ref)
    (pc : UnrefPc) : Prop :=
  match pc with
  | .call => Holds e own st a r
  | pc => Finalizing own st a r pc

/-- The parts of the state that `conn_unref` leaves alone. -/
structure SameThreads (st st' : EpollEngine) : Prop where
  worker : st'.worker = st.worker
  garbage : st'.garbage = st.garbage
  handshake : st'.handshake = st.handshake
  listLock : st'.listLock = st.listLock
  tenancy : st'.tenancy = st.tenancy

section

variable {e : Engine} {own : ℕ → Owner} {st st' : EpollEngine} {a : Agent} {r : Ref}

theorem AgentOk.touch {b : Agent} {s₀ : ℕ} {o : Owner} {c : Conn} (h : AgentOk e own st b)
    (hsame : SameThreads st st') (hconn : st'.conn = Function.update st.conn s₀ c)
    (hheld : ¬ (own s₀).HeldBy b) (hsettled : (own s₀).Settled (st.conn s₀) → o.Settled c) :
    AgentOk e (Function.update own s₀ o) st' b := by
  refine h.frame (.touch hconn hsame.tenancy (fun i hi => ?_) hheld hsettled) ?_ ?_
  · rwa [hsame.listLock]
  · exact fun w _ => ⟨by rw [hsame.worker], by rw [hsame.garbage]⟩
  · exact fun i _ => by rw [hsame.handshake]

/-- While agent `a` finalizes a connection, the other threads notice nothing. -/
theorem AgentOk.touchEnding {b : Agent} {s₀ : ℕ} {o : Owner} {c : Conn} (h : AgentOk e own st b)
    (hba : b ≠ a) (hown : own s₀ = .ending a) (ho : o.Ended) (hsame : SameThreads st st')
    (hconn : st'.conn = Function.update st.conn s₀ c)
    (hclosed : c.closed = (st.conn s₀).closed) :
    AgentOk e (Function.update own s₀ o) st' b := by
  refine h.touch hsame hconn ?_ ?_
  · rw [hown]
    exact fun hb => hba (hb.unique a.ending_heldBy)
  · intro hs
    rw [hown] at hs
    have hc := hclosed.trans (Owner.ending_settled_closed hs)
    rcases ho with rfl | ⟨i, rfl⟩ <;> exact Or.inr ⟨hc, by simp [Owner.OfThread]⟩

theorem Base.logUnref (hb : Base e own st) (hcur : st.tenancy r.slot = r.tenancy)
    (hended : (own r.slot).Ended) (hnew : r ∉ st.unrefs.map UnrefCall.ref) :
    Base e own { st with unrefs := st.unrefs ++ [⟨r, st.tenancy r.slot⟩] } :=
  { hb with
    log := by
      rw [List.map_append]
      refine List.nodup_append'.mpr ⟨hb.log, List.nodup_singleton r, ?_⟩
      simpa using hnew
    logged := by
      intro u hu
      rcases List.mem_append.mp hu with hu | hu
      · exact hb.logged u hu
      · obtain rfl := List.mem_singleton.mp hu
        exact ⟨hcur, Nat.le_of_eq hcur.symm, fun _ => hended⟩ }

theorem Base.pushFree (hb : Base e own st) {s : ℕ} (hown : own s = .ending a)
    (hstate : (st.conn s).slotState = false) :
    Base e (Function.update own s .free) { st with freeSlots := s :: st.freeSlots } := by
  have hne : own s ≠ .free := by simp [hown]
  have hkeep : Base e (Function.update own s .free) st := hb.move
    (Function.update_eq_self s st.conn).symm rfl rfl rfl rfl rfl
    (hb.lists.keep (by simp [hown])) hne hstate (hb.refs s) (fun _ => Or.inl rfl)
  exact { hkeep with
    free := by
      refine ⟨List.nodup_cons.mpr ⟨fun hs => hne (hb.free.2 s hs).1, hb.free.1⟩, fun t ht => ?_⟩
      rcases List.mem_cons.mp ht with rfl | ht
      · exact ⟨by simp, (hb.bound t hne).1⟩
      · exact hkeep.free.2 t ht }

/-- What a step of `conn_unref` does to the assignment of owners. -/
theorem unrefStep_inv {u : UnrefPc} {u' : Option UnrefPc} (hb : Base e own st)
    (hp : Pcs own st) (hothers : ∀ b, b ≠ a → AgentOk e own st b) (hunref : Unrefs e own st a r u)
    (hstep : st.unrefStep r u = some (st', u')) :
    ∃ o, Base e (Function.update own r.slot o) st' ∧ Pcs (Function.update own r.slot o) st' ∧
      (∀ b, b ≠ a → AgentOk e (Function.update own r.slot o) st' b) ∧
      (∀ pc, u' = some pc →
        pc ≠ .call ∧ Finalizing (Function.update own r.slot o) st' a r pc) ∧
      SameThreads st st' := by
  have hsame : ∀ {s c}, SameThreads st (st.setConn s c) := ⟨rfl, rfl, rfl, rfl, rfl⟩
  cases u with
  | call =>
      obtain ⟨hown, hcur, hheld, hclosed⟩ := hunref
      obtain ⟨rfl, rfl⟩ : _ ∧ _ := by simpa [EpollEngine.unrefStep] using hstep
      have hmove : Base e (Function.update own r.slot (.ending a))
          (st.setConn r.slot { st.conn r.slot with refs := (st.conn r.slot).refs - 1 }) :=
        hb.move rfl rfl rfl rfl rfl rfl
          (hb.lists.keep (by simp [hown])) (by rw [hown]; exact a.holder_ne_free)
          ⟨by simp [hheld.refs], hheld.slot, hclosed⟩ (by simp [hheld.refs])
          (fun _ => Owner.ending_ended a)
      have hnew : r ∉ st.unrefs.map UnrefCall.ref := by
        intro hr
        obtain ⟨v, hv, rfl⟩ := List.mem_map.mp hr
        have := (hb.logged v hv).2.2 hcur.symm
        rw [hown] at this
        exact a.holder_not_ended this
      refine ⟨.ending a, hmove.logUnref hcur (by simp) hnew,
        hp.move rfl rfl rfl rfl (by rintro _ _ ⟨⟩), fun b hba => ?_, ?_,
        ⟨rfl, rfl, rfl, rfl, rfl⟩⟩
      · refine (hothers b hba).touch ⟨rfl, rfl, rfl, rfl, rfl⟩ rfl ?_ ?_
        · rw [hown]
          exact fun h => hba (h.unique a.holder_heldBy)
        · intro hs
          rw [hown] at hs
          exact Owner.ending_settled (Agent.holder_settled hs)
      · intro pc hpc
        rw [if_pos hheld.refs, Option.some.injEq] at hpc
        subst hpc
        exact ⟨by rintro ⟨⟩, by simp, fun _ => by simpa [EpollEngine.setConn] using hheld.finalized, hcur,
          by rintro _ ⟨⟩⟩
  | exchange =>
      obtain ⟨hown, hfinalized, hcur, -⟩ := hunref
      obtain ⟨rfl, rfl⟩ : _ ∧ _ := by simpa [EpollEngine.unrefStep] using hstep
      have hslot := hb.slots r.slot
      rw [hown] at hslot
      obtain ⟨hrefs, hidx, hclosed⟩ := hslot
      refine ⟨.ending a, hb.move rfl rfl rfl rfl rfl rfl (hb.lists.keep (by simp [hown]))
        (by simp [hown]) ⟨hrefs, hidx, hclosed⟩ (hb.refs r.slot) (by simp),
        hp.move rfl rfl rfl rfl (by rintro _ _ ⟨⟩),
        fun b hba => (hothers b hba).touchEnding hba hown (by simp) hsame rfl rfl, ?_, hsame⟩
      · intro pc hpc
        split at hpc
        · cases hpc
        · obtain rfl := Option.some.inj hpc
          exact ⟨by rintro ⟨⟩, by simp, by rintro ⟨⟩, hcur, by rintro _ ⟨⟩⟩
  | poison =>
      obtain ⟨hown, -, hcur, -⟩ := hunref
      simp only [EpollEngine.unrefStep] at hstep
      split at hstep
      · obtain ⟨rfl, rfl⟩ : _ ∧ _ := by simpa using hstep
        have hslot := hb.slots r.slot
        rw [hown] at hslot
        obtain ⟨hrefs, hidx, hclosed⟩ := hslot
        -- the connection is on no list, so the defensive removal finds nothing
        have hlist : ∀ w, (st.connList w).erase r.slot = st.connList w := by
          intro w
          refine List.erase_of_not_mem fun hmem => ?_
          have := ((hb.lists w).2 r.slot).mp hmem
          simp [hown] at this
        refine ⟨.ending a, hb.move rfl rfl rfl rfl rfl rfl ?_ (by simp [hown])
          ⟨hrefs, hidx, hclosed⟩ (hb.refs r.slot) (by simp),
          hp.move rfl rfl rfl rfl (by rintro _ _ ⟨⟩),
          fun b hba => (hothers b hba).touchEnding hba hown (by simp)
            ⟨rfl, rfl, rfl, rfl, rfl⟩ rfl rfl, ?_, ⟨rfl, rfl, rfl, rfl, rfl⟩⟩
        · simp only [EpollEngine.setList, EpollEngine.setConn, hlist, Function.update_eq_self]
          exact hb.lists.keep (by simp [hown])
        · rintro pc ⟨⟩
          exact ⟨by rintro ⟨⟩, by simp, by rintro ⟨⟩, hcur, by rintro _ ⟨⟩⟩
      · cases hstep
  | release =>
      obtain ⟨hown, -, hcur, -⟩ := hunref
      have hslot := hb.slots r.slot
      rw [hown] at hslot
      obtain ⟨hrefs, hidx, hclosed⟩ := hslot
      simp only [EpollEngine.unrefStep, hidx] at hstep
      obtain ⟨rfl, rfl⟩ : _ ∧ _ := by simpa using hstep
      refine ⟨.ending a, hb.move rfl rfl rfl rfl rfl rfl (hb.lists.keep (by simp [hown]))
        (by simp [hown]) ⟨hrefs, rfl, hclosed⟩ (hb.refs r.slot) (by simp),
        hp.move rfl rfl rfl rfl (by rintro _ _ ⟨⟩),
        fun b hba => (hothers b hba).touchEnding hba hown (by simp) hsame rfl rfl, ?_, hsame⟩
      · rintro pc ⟨⟩
        refine ⟨by rintro ⟨⟩, by simp, by rintro ⟨⟩, hcur, ?_⟩
        rintro s ⟨⟩
        exact ⟨rfl, by simp [EpollEngine.setConn]⟩
  | push s =>
      obtain ⟨hown, -, -, hpush⟩ := hunref
      obtain ⟨rfl, hstate⟩ := hpush s rfl
      obtain ⟨rfl, rfl⟩ : _ ∧ _ := by simpa [EpollEngine.unrefStep] using hstep
      refine ⟨.free, hb.pushFree hown hstate,
        hp.move (Function.update_eq_self r.slot st.conn).symm rfl rfl rfl (by rintro _ _ ⟨⟩), fun b hba => ?_,
        by rintro _ ⟨⟩, ⟨rfl, rfl, rfl, rfl, rfl⟩⟩
      exact (hothers b hba).touchEnding hba hown (Or.inl rfl) ⟨rfl, rfl, rfl, rfl, rfl⟩
        (Function.update_eq_self r.slot st.conn).symm rfl

/-- The defensive removal in `conn_finalize` finds nothing, and `conn_finalize` runs to its end. -/
theorem unrefStep_place {u : UnrefPc} {u' : Option UnrefPc} (hb : Base e own st)
    (hunref : Unrefs e own st a r u) (hstep : st.unrefStep r u = some (st', u')) :
    st'.connList = st.connList ∧ (u' = none → u = .push r.slot) := by
  cases u with
  | call =>
      obtain ⟨rfl, rfl⟩ : _ ∧ _ := by simpa [EpollEngine.unrefStep] using hstep
      exact ⟨rfl, fun h => by simp [hunref.held.refs] at h⟩
  | exchange =>
      obtain ⟨-, hfinalized, -⟩ := hunref
      obtain ⟨rfl, rfl⟩ : _ ∧ _ := by simpa [EpollEngine.unrefStep] using hstep
      exact ⟨rfl, fun h => by simp [hfinalized rfl] at h⟩
  | poison =>
      simp only [EpollEngine.unrefStep] at hstep
      split at hstep
      · obtain ⟨rfl, rfl⟩ : _ ∧ _ := by simpa using hstep
        refine ⟨?_, by rintro ⟨⟩⟩
        have hnot : r.slot ∉ st.connList (st.conn r.slot).widx := by
          intro hmem
          have := ((hb.lists _).2 r.slot).mp hmem
          simp [hunref.1] at this
        simp [EpollEngine.setList, EpollEngine.setConn, List.erase_of_not_mem hnot]
      · cases hstep
  | release =>
      obtain ⟨rfl, rfl⟩ : _ ∧ _ := by simpa [EpollEngine.unrefStep] using hstep
      exact ⟨rfl, by rintro ⟨⟩⟩
  | push s =>
      obtain ⟨-, -, -, hpush⟩ := hunref
      obtain ⟨rfl, -⟩ := hpush s rfl
      obtain ⟨rfl, rfl⟩ : _ ∧ _ := by simpa [EpollEngine.unrefStep] using hstep
      exact ⟨rfl, fun _ => rfl⟩

end

end FiveGProxy
