import FiveGProxy.Sockets.HappyEyeballs

/-!
# What becomes of the sockets

Every socket that is open has somebody who will close it or return it (`Held`): its attempt,
which has not finished the race, or the caller. The caller has it from `winner`; the latch tells it
that the winner stays (`Kept`), and once it has given up, no winner stays (`NoneKept`).
-/

namespace FiveGProxy

open Steps

namespace HappyEyeballs

namespace Race

variable {A : Type*}

/-- The caller can fail here without leaving a socket behind: a rejected task finds every attempt
failed, and the sleep is not interrupted when a winner has already found that the caller waits. -/
def FailsSafely (st : Race A) : CallerPc A → Prop
  | .dispatch [] =>
      st.deferred.isEmpty = false → st.winner = none ∧ ∀ a ∈ st.attempts, a.pc = .ended
  | .sleep => ∀ k ∈ st.winner, ∀ a ∈ st.attempts[k]?, a.pc ≠ .countDown ∧ a.pc ≠ .ended
  | _ => True

instance (st : Race A) : (pc : CallerPc A) → Decidable (st.FailsSafely pc)
  | .dispatch [] => inferInstanceAs (Decidable (_ → _ ∧ ∀ a ∈ st.attempts, a.pc = .ended))
  | .sleep => inferInstanceAs (Decidable
      (∀ k ∈ st.winner, ∀ a ∈ st.attempts[k]?, a.pc ≠ .countDown ∧ a.pc ≠ .ended))
  | .dispatch (_ :: _) | .await | .look _ | .abandon | .collect | .wrap _ | .close _
  | .returned _ => inferInstanceAs (Decidable True)

def FailuresSafe (st : Race A) : RaceEvent → Prop
  | .caller false => st.FailsSafely st.caller
  | _ => True

instance (st : Race A) : (ev : RaceEvent) → Decidable (st.FailuresSafe ev)
  | .caller false => inferInstanceAs (Decidable (st.FailsSafely st.caller))
  | .caller true | .attempt _ _ | .stagger => inferInstanceAs (Decidable True)

/-! ### What the parties know -/

variable {st st' : Race A}

def Keeps (st : Race A) (k : ℕ) : Prop :=
  st.caller ≠ .returned none ∧ (∀ j, st.caller = .returned (some j) → j = k) ∧
    (∀ j, st.caller = .wrap j → j = k) ∧ ∀ j, st.caller = .close j → j = k

/-- Neither `winner` nor the caller has the socket. -/
def Lost (st : Race A) (k : ℕ) : Prop := st.winner ≠ some k ∧ st.caller ≠ .close k

/-- Somebody is responsible for the socket of an attempt that has won the race. -/
def Held (st : Race A) (k : ℕ) (a : Attempt A) : Prop :=
  st.winner = some k ∧ (a.pc = .recheck ∨ a.pc = .closeLate ∨ st.Keeps k) ∨ st.caller = .close k

/-- What holds for an attempt whose race is over. -/
structure Raced (st : Race A) (k : ℕ) (a : Attempt A) : Prop where
  place : a.pc = .recheck ∨ a.pc = .closeLate ∨ a.pc = .yield ∨ a.pc = .countDown ∨ a.pc = .ended
  connected : a.candidate ≠ none
  late : a.pc = .closeLate ∨ a.pc = .yield → st.abandoned = true
  yielding : a.pc = .yield → a.candidate = some .closed
  won : a.pc = .recheck ∨ a.pc = .countDown → st.abandoned = false → st.winner = some k
  opened : a.candidate = some .opened → st.Held k a
  closed : st.winner = some k → a.candidate = some .closed →
    a.pc = .yield ∨ st.caller = .returned none ∧ st.abandoned = false

/-- What holds for an attempt in each of its places. -/
inductive Fits (st : Race A) (k : ℕ) (a : Attempt A) : Prop
  | unconnected (hpc : a.pc = .start ∨ a.pc = .precheck ∨ a.pc = .connect ∨ a.pc = .ended)
      (hnone : a.candidate = none) (hlost : st.Lost k)
  | racing (hpc : a.pc = .race ∨ a.pc = .closeLost) (hopened : a.candidate = some .opened)
      (hlost : st.Lost k)
  | raced (hraced : st.Raced k a)

def NoneKept (st : Race A) : Prop :=
  ∀ k a, st.winner = some k → st.attempts[k]? = some a → a.pc ≠ .countDown ∧ a.pc ≠ .ended

def Kept (st : Race A) (k : ℕ) : Prop :=
  st.abandoned = false ∧ st.winner = some k ∧ ∃ a, st.attempts[k]? = some a ∧ a.pc = .ended

inductive Phase (st : Race A) : Prop
  | waiting (hcaller : (∃ rest, st.caller = .dispatch rest ∧ st.scheduled = []) ∨
      st.caller = .await ∨ (∃ got, st.caller = .look got ∧ (got = true → st.latch = 0)) ∨
        st.caller = .abandon)
      (hwaits : st.abandoned = false)
  | givingUp (hcaller : st.caller = .sleep ∨ st.caller = .collect) (hgone : st.abandoned = true)
  | collected (hcaller : st.caller = .returned none ∨ ∃ j, st.caller = .close j ∧ st.winner ≠ some j)
      (hgone : st.abandoned = true) (hnone : st.NoneKept)
  | chosen (k : ℕ) (hcaller : st.caller = .wrap k ∨ st.caller = .close k ∨
      st.caller = .returned (some k)) (hkept : st.Kept k)
  | failed (k : ℕ) (hcaller : st.caller = .returned none) (hkept : st.Kept k)
  | rejected (hcaller : st.caller = .returned none) (hnone : st.winner = none)
      (hempty : st.scheduled = [])
      (hended : ∀ a ∈ st.attempts, a.pc = .ended)

structure Inv (st : Race A) : Prop where
  fits : ∀ k a, st.attempts[k]? = some a → st.Fits k a
  winner : ∀ k, st.winner = some k → k < st.attempts.length
  closing : ∀ k, st.caller = .close k → k < st.attempts.length
  latch : st.latch = 0 → st.abandoned = false → ∃ k, st.Kept k
  phase : st.Phase

section

variable {k : ℕ} {a : Attempt A} {f : Attempt A → Attempt A}

theorem Fits.of_unconnected (h : st.Fits k a)
    (hpc : a.pc = .start ∨ a.pc = .precheck ∨ a.pc = .connect) : a.candidate = none ∧ st.Lost k := by
  cases h with
  | unconnected _ hnone hlost => exact ⟨hnone, hlost⟩
  | racing hrace => rcases hpc with hpc | hpc | hpc <;> simp [hpc] at hrace
  | raced hraced =>
      have hplace := hraced.place
      rcases hpc with hpc | hpc | hpc <;> simp [hpc] at hplace

theorem Fits.of_racing (h : st.Fits k a) (hpc : a.pc = .race ∨ a.pc = .closeLost) :
    a.candidate = some .opened ∧ st.Lost k := by
  cases h with
  | unconnected hbefore => rcases hpc with hpc | hpc <;> simp [hpc] at hbefore
  | racing _ hopened hlost => exact ⟨hopened, hlost⟩
  | raced hraced =>
      have hplace := hraced.place
      rcases hpc with hpc | hpc <;> simp [hpc] at hplace

theorem Fits.of_raced (h : st.Fits k a)
    (hpc : a.pc = .recheck ∨ a.pc = .closeLate ∨ a.pc = .yield ∨ a.pc = .countDown) :
    st.Raced k a := by
  cases h with
  | unconnected hbefore => rcases hpc with hpc | hpc | hpc | hpc <;> simp [hpc] at hbefore
  | racing hrace => rcases hpc with hpc | hpc | hpc | hpc <;> simp [hpc] at hrace
  | raced hraced => exact hraced

theorem Fits.congr {j : ℕ} (h : st.Fits j a) (hcaller : st'.caller = st.caller)
    (habandoned : st'.abandoned = st.abandoned)
    (hwinner : st'.winner = some j ↔ st.winner = some j) : st'.Fits j a := by
  have hlost' : st.Lost j → st'.Lost j := by
    rintro ⟨hwin, hclose⟩
    exact ⟨fun h => hwin (hwinner.mp h), fun h => hclose (hcaller ▸ h)⟩
  have hheld : st'.Held j a ↔ st.Held j a := by
    rw [Held, Held, Keeps, Keeps, hcaller, hwinner]
  cases h with
  | unconnected hpc hnone hlost => exact .unconnected hpc hnone (hlost' hlost)
  | racing hpc hopened hlost => exact .racing hpc hopened (hlost' hlost)
  | raced hraced =>
      refine .raced ⟨hraced.place, hraced.connected, ?_, hraced.yielding, ?_, ?_, ?_⟩
      · rw [habandoned]
        exact hraced.late
      · rw [habandoned, hwinner]
        exact hraced.won
      · rw [hheld]
        exact hraced.opened
      · rw [hwinner, hcaller, habandoned]
        exact hraced.closed

/-- A step of the attempt `k`, which alone may win or yield by it. -/
theorem Inv.attemptStep (h : st.Inv) (ha : st.attempts[k]? = some a) (hended : a.pc ≠ .ended)
    (hattempts : st'.attempts = st.attempts.modify k f) (hcaller : st'.caller = st.caller)
    (hscheduled : st'.scheduled = st.scheduled)
    (habandoned : st'.abandoned = st.abandoned)
    (hwinner : ∀ j, j ≠ k → (st'.winner = some j ↔ st.winner = some j))
    (hclose : st.caller = .close k → st'.winner = some k → st.winner = some k)
    (hfits : st'.Fits k (f a)) (hle : st'.latch ≤ st.latch)
    (hlatch : st'.latch = 0 → st.abandoned = false → st.latch = 0 ∨ st'.Kept k)
    (hquiet : st.abandoned = true → st'.winner = some k →
      (st.winner = some k → a.pc ≠ .countDown) →
        (f a).pc ≠ .countDown ∧ (f a).pc ≠ .ended) : st'.Inv := by
  have hsame : st'.attempts[k]? = some (f a) := by simp [hattempts, ha]
  have hother : ∀ {j b}, j ≠ k → (st'.attempts[j]? = some b ↔ st.attempts[j]? = some b) := by
    intro j b hj
    simp [hattempts, Ne.symm hj]
  have hkept : ∀ {j}, st.Kept j → st'.Kept j := by
    rintro j ⟨hwaits, hwin, b, hb, hbend⟩
    have hj : j ≠ k := by
      rintro rfl
      exact hended (Option.some.inj (ha.symm.trans hb) ▸ hbend)
    exact ⟨habandoned.trans hwaits, (hwinner j hj).mpr hwin, b, (hother hj).mpr hb, hbend⟩
  constructor
  · intro j b hb
    by_cases hj : j = k
    · subst hj
      obtain rfl := Option.some.inj (hsame.symm.trans hb)
      exact hfits
    · exact (h.fits j b ((hother hj).mp hb)).congr hcaller habandoned (hwinner j hj)
  · intro j hwin
    rw [hattempts, List.length_modify]
    by_cases hj : j = k
    · exact hj ▸ (List.getElem?_eq_some_iff.mp ha).1
    · exact h.winner j ((hwinner j hj).mp hwin)
  · intro j hj
    rw [hattempts, List.length_modify]
    exact h.closing j (hcaller ▸ hj)
  · intro hzero hwaits
    rcases hlatch hzero (habandoned ▸ hwaits) with hold | hnew
    · obtain ⟨j, hj⟩ := h.latch hold (habandoned ▸ hwaits)
      exact ⟨j, hkept hj⟩
    · exact ⟨k, hnew⟩
  · cases h.phase with
    | waiting hc hwaits =>
        refine .waiting ?_ (habandoned.trans hwaits)
        rw [hcaller, hscheduled]
        refine hc.imp_right (Or.imp_right (Or.imp_left ?_))
        rintro ⟨got, hgot, hopen⟩
        exact ⟨got, hgot, fun htrue => Nat.le_zero.mp (hopen htrue ▸ hle)⟩
    | givingUp hc hgone => exact .givingUp (hcaller ▸ hc) (habandoned.trans hgone)
    | collected hc hgone hnone =>
        refine .collected ?_ (habandoned.trans hgone) fun j b hwin hb => ?_
        · rw [hcaller]
          refine hc.imp_right ?_
          rintro ⟨j, hj, hlost⟩
          refine ⟨j, hj, fun hwin => hlost ?_⟩
          by_cases hjk : j = k
          · subst hjk
            exact hclose hj hwin
          · exact (hwinner j hjk).mp hwin
        · by_cases hj : j = k
          · subst hj
            obtain rfl := Option.some.inj (hsame.symm.trans hb)
            exact hquiet hgone hwin fun hold => (hnone j a hold ha).1
          · exact hnone j b ((hwinner j hj).mp hwin) ((hother hj).mp hb)
    | chosen j hc hj => exact .chosen j (hcaller ▸ hc) (hkept hj)
    | failed j hc hj => exact .failed j (hcaller ▸ hc) (hkept hj)
    | rejected hc hnone hempty hall => exact absurd (hall a (List.mem_of_getElem? ha)) hended

/-- A step of the attempt `k` that changes none of the fields of the race. -/
theorem Inv.goto (h : st.Inv) (ha : st.attempts[k]? = some a) (hended : a.pc ≠ .ended)
    {pc : AttemptPc} (hfits : st.Fits k { a with pc := pc })
    (hquiet : st.abandoned = true → st.winner = some k → a.pc ≠ .countDown →
      pc ≠ .countDown ∧ pc ≠ .ended) : (st.goto k pc).Inv :=
  h.attemptStep ha hended rfl rfl rfl rfl (fun _ _ => Iff.rfl) (fun _ hwin => hwin)
    (hfits.congr rfl rfl Iff.rfl) (Nat.le_refl _) (fun hzero _ => Or.inl hzero)
    fun hgone hwin hpc => hquiet hgone hwin (hpc hwin)

theorem Inv.keeps (h : st.Inv) (ha : st.attempts[k]? = some a) (hended : a.pc ≠ .ended)
    (hwin : st.winner = some k) (hwaits : st.abandoned = false) : st.Keeps k := by
  have hkept : ∀ {j}, ¬st.Kept j := by
    rintro j ⟨-, hj, b, hb, hbend⟩
    obtain rfl := Option.some.inj (hwin.symm.trans hj)
    exact hended (Option.some.inj (ha.symm.trans hb) ▸ hbend)
  cases h.phase with
  | waiting hcaller =>
      obtain ⟨rest, hc⟩ | hc | ⟨got, hc, -⟩ | hc := hcaller <;> simp [Keeps, hc]
  | givingUp _ hgone | collected _ hgone =>
      rw [hwaits] at hgone
      cases hgone
  | chosen j _ hj | failed j _ hj => exact absurd hj hkept
  | rejected _ hnone =>
      rw [hwin] at hnone
      cases hnone

theorem Inv.recheck (h : st.Inv) (ha : st.attempts[k]? = some a) (hpc : a.pc = .recheck) :
    (st.goto k (if st.abandoned then .closeLate else .countDown)).Inv := by
  have hended : a.pc ≠ .ended := by simp [hpc]
  have hraced := (h.fits k a ha).of_raced (.inl hpc)
  have hclosed : st.winner = some k → a.candidate = some .closed →
      st.caller = .returned none ∧ st.abandoned = false :=
    fun hwin hc => (hraced.closed hwin hc).resolve_left (by simp [hpc])
  split
  case isTrue hgone =>
    refine h.goto ha hended (.raced ?_) fun _ _ _ => ⟨by rintro ⟨⟩, by rintro ⟨⟩⟩
    exact
      { place := .inr (.inl rfl)
        connected := hraced.connected
        late := fun _ => hgone
        yielding := by rintro ⟨⟩
        won := by rintro (⟨⟨⟩⟩ | ⟨⟨⟩⟩)
        opened := fun ho => (hraced.opened ho).imp_left (And.imp_right fun _ => .inr (.inl rfl))
        closed := fun hwin hc => .inr (hclosed hwin hc) }
  case isFalse hwaits =>
    have hwaits : st.abandoned = false := by simpa using hwaits
    refine h.goto ha hended (.raced ?_) fun hgone => absurd (hwaits.symm.trans hgone) (by decide)
    exact
      { place := .inr (.inr (.inr (.inl rfl)))
        connected := hraced.connected
        late := by rintro (⟨⟨⟩⟩ | ⟨⟨⟩⟩)
        yielding := by rintro ⟨⟩
        won := fun _ => hraced.won (.inl hpc)
        -- nobody has given up, so the caller may still take the winner
        opened := fun ho => (hraced.opened ho).imp_left fun hheld =>
          ⟨hheld.1, .inr (.inr (h.keeps ha hended hheld.1 hwaits))⟩
        closed := fun hwin hc => .inr (hclosed hwin hc) }

/-- The late winner takes itself back, unless the caller has it already. -/
theorem Inv.yield (h : st.Inv) (ha : st.attempts[k]? = some a) (hpc : a.pc = .yield) :
    { st.goto k .ended with winner := if st.winner = some k then none else st.winner }.Inv := by
  have hended : a.pc ≠ .ended := by simp [hpc]
  have hraced := (h.fits k a ha).of_raced (.inr (.inr (.inl hpc)))
  have hyielded : (if st.winner = some k then none else st.winner) ≠ some k := by
    split
    case isTrue => rintro ⟨⟩
    case isFalse hwin => exact hwin
  refine h.attemptStep ha hended rfl rfl rfl rfl ?_ (fun _ hwin => absurd hwin hyielded)
    (.raced ?_) (Nat.le_refl _) (fun hzero _ => .inl hzero) fun _ hwin => absurd hwin hyielded
  · intro j hj
    dsimp only
    split
    case isTrue hwin => simp [hwin, Ne.symm hj]
    case isFalse => exact Iff.rfl
  · exact
      { place := .inr (.inr (.inr (.inr rfl)))
        connected := hraced.connected
        late := by rintro (⟨⟨⟩⟩ | ⟨⟨⟩⟩)
        yielding := by rintro ⟨⟩
        won := by rintro (⟨⟨⟩⟩ | ⟨⟨⟩⟩)
        opened := fun ho => by cases ho.symm.trans (hraced.yielding hpc)
        closed := fun hwin => absurd hwin hyielded }

theorem Inv.countDown (h : st.Inv) (ha : st.attempts[k]? = some a) (hpc : a.pc = .countDown) :
    { st.goto k .ended with latch := st.latch - 1 }.Inv := by
  have hended : a.pc ≠ .ended := by simp [hpc]
  have hraced := (h.fits k a ha).of_raced (.inr (.inr (.inr hpc)))
  have hfits : st.Fits k { a with pc := .ended } := .raced
    { place := .inr (.inr (.inr (.inr rfl)))
      connected := hraced.connected
      late := by rintro (⟨⟨⟩⟩ | ⟨⟨⟩⟩)
      yielding := by rintro ⟨⟩
      won := by rintro (⟨⟨⟩⟩ | ⟨⟨⟩⟩)
      opened := fun ho => (hraced.opened ho).imp_left (And.imp_right (by simp [hpc]))
      closed := fun hwin hc => .inr ((hraced.closed hwin hc).resolve_left (by simp [hpc])) }
  refine h.attemptStep ha hended rfl rfl rfl rfl (fun _ _ => Iff.rfl) (fun _ hwin => hwin)
    (hfits.congr rfl rfl Iff.rfl) (Nat.sub_le _ _) (fun _ hwaits => .inr ?_)
    fun _ hwin hpc' => absurd hpc (hpc' hwin)
  exact ⟨hwaits, hraced.won (.inr hpc) hwaits, { a with pc := .ended }, by simp [Race.goto, ha], rfl⟩

theorem Inv.attempt (h : st.Inv) {answer : Bool} (ha : st.attempts[k]? = some a)
    (hstep : st.attempt k answer a.pc = some st') : st'.Inv := by
  have hended : a.pc ≠ .ended := by
    intro hpc
    rw [hpc] at hstep
    cases hstep
  have hfits := h.fits k a ha
  cases hpc : a.pc <;> rw [hpc] at hstep
  case ended => exact absurd hpc hended
  case start =>
    obtain rfl := Option.some.inj hstep
    obtain ⟨hnone, hlost⟩ := hfits.of_unconnected (.inl hpc)
    refine h.goto ha hended (.unconnected ?_ hnone hlost) fun _ hwin => absurd hwin hlost.1
    dsimp only
    split <;> simp
  case precheck =>
    obtain rfl := Option.some.inj hstep
    obtain ⟨hnone, hlost⟩ := hfits.of_unconnected (.inr (.inl hpc))
    refine h.goto ha hended (.unconnected ?_ hnone hlost) fun _ hwin => absurd hwin hlost.1
    dsimp only
    split <;> simp
  case connect =>
    obtain ⟨hnone, hlost⟩ := hfits.of_unconnected (.inr (.inr hpc))
    rw [Race.attempt] at hstep
    split at hstep
    · obtain rfl := Option.some.inj hstep
      exact h.attemptStep ha hended rfl rfl rfl rfl (fun _ _ => Iff.rfl) (fun _ hwin => hwin)
        (.racing (.inl rfl) rfl hlost) (Nat.le_refl _) (fun hzero _ => .inl hzero)
        fun _ hwin => absurd hwin hlost.1
    · obtain rfl := Option.some.inj hstep
      exact h.goto ha hended (.unconnected (.inr (.inr (.inr rfl))) hnone hlost)
        fun _ hwin => absurd hwin hlost.1
  case race =>
    obtain ⟨hopened, hlost⟩ := hfits.of_racing (.inl hpc)
    rw [Race.attempt] at hstep
    split at hstep
    case isTrue hnone =>
      obtain rfl := Option.some.inj hstep
      refine h.attemptStep ha hended rfl rfl rfl rfl ?_ (fun hclose => absurd hclose hlost.2)
        (.raced ?_) (Nat.le_refl _) (fun hzero _ => .inl hzero)
        fun _ _ _ => ⟨by rintro ⟨⟩, by rintro ⟨⟩⟩
      · intro j hj
        simp [hnone, Ne.symm hj]
      · exact
          { place := .inl rfl
            connected := by simp [hopened]
            late := by rintro (⟨⟨⟩⟩ | ⟨⟨⟩⟩)
            yielding := by rintro ⟨⟩
            won := fun _ _ => rfl
            opened := fun _ => .inl ⟨rfl, .inl rfl⟩
            closed := fun _ hc => by cases hopened.symm.trans hc }
    case isFalse =>
      obtain rfl := Option.some.inj hstep
      exact h.goto ha hended (.racing (.inr rfl) hopened hlost) fun _ hwin => absurd hwin hlost.1
  case recheck =>
    obtain rfl := Option.some.inj hstep
    exact h.recheck ha hpc
  case closeLate =>
    obtain rfl := Option.some.inj hstep
    have hraced := hfits.of_raced (.inr (.inl hpc))
    rw [closeSocket_goto]
    refine h.attemptStep ha hended rfl rfl rfl rfl (fun _ _ => Iff.rfl) (fun _ hwin => hwin)
      (.raced ?_) (Nat.le_refl _) (fun hzero _ => .inl hzero)
      fun _ _ _ => ⟨by rintro ⟨⟩, by rintro ⟨⟩⟩
    exact
      { place := .inr (.inr (.inl rfl))
        connected := by rintro ⟨⟩
        late := fun _ => hraced.late (.inl hpc)
        yielding := fun _ => rfl
        won := by rintro (⟨⟨⟩⟩ | ⟨⟨⟩⟩)
        opened := by rintro ⟨⟩
        closed := fun _ _ => .inl rfl }
  case closeLost =>
    obtain rfl := Option.some.inj hstep
    obtain ⟨-, hlost⟩ := hfits.of_racing (.inr hpc)
    rw [closeSocket_goto]
    refine h.attemptStep ha hended rfl rfl rfl rfl (fun _ _ => Iff.rfl) (fun _ hwin => hwin)
      (.raced ?_) (Nat.le_refl _) (fun hzero _ => .inl hzero) fun _ hwin => absurd hwin hlost.1
    exact
      { place := .inr (.inr (.inr (.inr rfl)))
        connected := by rintro ⟨⟩
        late := by rintro (⟨⟨⟩⟩ | ⟨⟨⟩⟩)
        yielding := by rintro ⟨⟩
        won := by rintro (⟨⟨⟩⟩ | ⟨⟨⟩⟩)
        opened := by rintro ⟨⟩
        closed := fun hwin => absurd hwin hlost.1 }
  case yield =>
    obtain rfl := Option.some.inj hstep
    exact h.yield ha hpc
  case countDown =>
    obtain rfl := Option.some.inj hstep
    exact h.countDown ha hpc

theorem Kept.launch (h : st.Kept k) (addr : A) : (st.launch addr).Kept k := by
  obtain ⟨hwaits, hwin, a, ha, hended⟩ := h
  refine ⟨hwaits, hwin, a, ?_, hended⟩
  rw [Race.launch, List.getElem?_append_left (List.getElem?_eq_some_iff.mp ha).1, ha]

theorem Inv.launch (h : st.Inv) (addr : A)
    (hopen : st.scheduled = [] → ∃ rest, st.caller = .dispatch rest) : (st.launch addr).Inv := by
  have hold : ∀ {j a}, (st.launch addr).attempts[j]? = some a →
      st.attempts[j]? = some a ∨ j = st.attempts.length ∧ a = ⟨addr, .start, none⟩ := by
    intro j a ha
    rcases Nat.lt_trichotomy j st.attempts.length with hj | rfl | hj
    · exact Or.inl ((List.getElem?_append_left hj).symm.trans ha)
    · refine Or.inr ⟨rfl, ?_⟩
      simpa [Race.launch] using ha.symm
    · have hlength : (st.launch addr).attempts.length = st.attempts.length + 1 := by
        simp [Race.launch]
      rw [List.getElem?_eq_none (by omega)] at ha
      cases ha
  constructor
  · intro j a ha
    rcases hold ha with hj | ⟨rfl, rfl⟩
    · exact (h.fits j a hj).congr rfl rfl Iff.rfl
    · exact .unconnected (.inl rfl) rfl ⟨fun hwin => Nat.lt_irrefl _ (h.winner _ hwin),
        fun hclose => Nat.lt_irrefl _ (h.closing _ hclose)⟩
  · intro j hwin
    exact Nat.lt_of_lt_of_le (h.winner j hwin) (by simp [Race.launch])
  · intro j hclose
    exact Nat.lt_of_lt_of_le (h.closing j hclose) (by simp [Race.launch])
  · intro hzero hwaits
    obtain ⟨j, hj⟩ := h.latch hzero hwaits
    exact ⟨j, hj.launch addr⟩
  · cases h.phase with
    | waiting hcaller hwaits => exact .waiting hcaller hwaits
    | givingUp hcaller hgone => exact .givingUp hcaller hgone
    | collected hcaller hgone hnone =>
        refine .collected hcaller hgone fun j a hwin ha => ?_
        rcases hold ha with hj | ⟨rfl, rfl⟩
        · exact hnone j a hwin hj
        · exact ⟨by rintro ⟨⟩, by rintro ⟨⟩⟩
    | chosen j hcaller hkept => exact .chosen j hcaller (hkept.launch addr)
    | failed j hcaller hkept => exact .failed j hcaller (hkept.launch addr)
    | rejected hcaller _ hempty =>
        obtain ⟨rest, hrest⟩ := hopen hempty
        rw [hcaller] at hrest
        cases hrest

theorem Inv.callerStep (h : st.Inv) (hattempts : st'.attempts = st.attempts)
    (hreturned : st.caller ≠ .returned none)
    (hheld : ∀ k a, st.attempts[k]? = some a → a.candidate = some .opened → st.Raced k a →
      st'.Held k a)
    (hwinner : ∀ k, st'.winner = some k → st.winner = some k)
    (hclosing : ∀ k, st'.caller = .close k → st.winner = some k)
    (hgone : st.abandoned = true → st'.abandoned = true)
    (hlatch : st'.abandoned = false → st'.latch = st.latch ∧ st'.winner = st.winner ∧
      st.abandoned = false) (hphase : st'.Phase) : st'.Inv := by
  have hlost' : ∀ {k}, st.Lost k → st'.Lost k := fun hlost =>
    ⟨fun hwin => hlost.1 (hwinner _ hwin), fun hclose => hlost.1 (hclosing _ hclose)⟩
  constructor
  · intro k a ha
    rw [hattempts] at ha
    cases h.fits k a ha with
    | unconnected hpc hnone hlost => exact .unconnected hpc hnone (hlost' hlost)
    | racing hpc hopened hlost => exact .racing hpc hopened (hlost' hlost)
    | raced hraced =>
        refine .raced ⟨hraced.place, hraced.connected, fun hpc => hgone (hraced.late hpc),
          hraced.yielding, ?_, fun ho => hheld k a ha ho hraced, ?_⟩
        · intro hpc hwaits
          obtain ⟨-, hwin, hwaited⟩ := hlatch hwaits
          exact hwin.trans (hraced.won hpc hwaited)
        · intro hwin hc
          refine .inl ((hraced.closed (hwinner k hwin) hc).resolve_right ?_)
          exact fun hafter => hreturned hafter.1
  · intro k hwin
    exact hattempts ▸ h.winner k (hwinner k hwin)
  · intro k hclose
    exact hattempts ▸ h.winner k (hclosing k hclose)
  · intro hzero hwaits
    obtain ⟨heq, hwin, hwaited⟩ := hlatch hwaits
    obtain ⟨k, -, hk, hended⟩ := h.latch (heq ▸ hzero) hwaited
    exact ⟨k, hwaits, hwin.trans hk, hattempts ▸ hended⟩
  · exact hphase

def Undecided : CallerPc A → Prop
  | .wrap _ | .close _ | .returned _ => False
  | _ => True

theorem Keeps.of_undecided (h : Undecided st.caller) (j : ℕ) :
    st.Keeps j ∧ st.caller ≠ .close j ∧ st.caller ≠ .returned none := by
  cases hc : st.caller <;> simp_all [Keeps, Undecided]

theorem Held.winner (h : st.Held k a) (hcaller : Undecided st.caller) :
    st.winner = some k ∧ (a.pc = .recheck ∨ a.pc = .closeLate ∨ st.Keeps k) :=
  h.resolve_right (Keeps.of_undecided hcaller k).2.1

theorem Inv.goOn (h : st.Inv) {c : CallerPc A} {rest : List A} (hold : Undecided st.caller)
    (hnew : Undecided c) (hphase : { st with caller := c, scheduled := rest }.Phase) :
    { st with caller := c, scheduled := rest }.Inv := by
  refine h.callerStep rfl (Keeps.of_undecided hold 0).2.2 (fun k a _ ho hraced => ?_)
    (fun _ hwin => hwin) ?_ id (fun hwaits => ⟨rfl, rfl, hwaits⟩) hphase
  · have hkeeps := (@Keeps.of_undecided A { st with caller := c, scheduled := rest } hnew k).1
    exact .inl ⟨((hraced.opened ho).winner hold).1, .inr (.inr hkeeps)⟩
  · rintro k rfl
    exact hnew.elim

theorem Inv.reject (h : st.Inv) (hwaits : st.abandoned = false) (hempty : st.scheduled = [])
    (hnone : st.winner = none) (hended : ∀ a ∈ st.attempts, a.pc = .ended)
    (hcaller : Undecided st.caller) : { st with caller := .returned none }.Inv := by
  refine h.callerStep rfl (Keeps.of_undecided hcaller 0).2.2 (fun k a _ ho hraced => ?_)
    (fun _ hwin => hwin) (by rintro _ ⟨⟩) id (fun _ => ⟨rfl, rfl, hwaits⟩)
    (.rejected rfl hnone hempty hended)
  cases hnone.symm.trans ((hraced.opened ho).winner hcaller).1

theorem Inv.abandon (h : st.Inv) (hcaller : Undecided st.caller) :
    { st with abandoned := true, caller := .sleep }.Inv := by
  refine h.callerStep rfl (Keeps.of_undecided hcaller 0).2.2 (fun k a _ ho hraced => ?_)
    (fun _ hwin => hwin) (by rintro _ ⟨⟩) (fun _ => rfl) (by rintro ⟨⟩) (.givingUp (.inl rfl) rfl)
  have hkeeps := (@Keeps.of_undecided A { st with abandoned := true, caller := .sleep } trivial k).1
  exact .inl ⟨((hraced.opened ho).winner hcaller).1, .inr (.inr hkeeps)⟩

/-- The caller returns without a look at `winner`. -/
theorem Inv.giveUp (h : st.Inv) (hgone : st.abandoned = true) (hcaller : Undecided st.caller)
    (hnone : st.NoneKept) : { st with caller := .returned none }.Inv := by
  refine h.callerStep rfl (Keeps.of_undecided hcaller 0).2.2 (fun k a ha ho hraced => ?_)
    (fun _ hwin => hwin) (by rintro _ ⟨⟩) id (fun hwaits => ?_) (.collected (.inl rfl) hgone hnone)
  · -- the winner has yet to find that the caller has given up, and closes the socket then
    obtain ⟨hwin, -⟩ := (hraced.opened ho).winner hcaller
    obtain ⟨hnotCounting, hnotEnded⟩ := hnone k a hwin ha
    rcases hraced.place with hpc | hpc | hpc | hpc | hpc
    · exact .inl ⟨hwin, .inl hpc⟩
    · exact .inl ⟨hwin, .inr (.inl hpc)⟩
    · cases ho.symm.trans (hraced.yielding hpc)
    · exact absurd hpc hnotCounting
    · exact absurd hpc hnotEnded
  · change st.abandoned = false at hwaits
    rw [hgone] at hwaits
    cases hwaits

theorem Inv.collect (h : st.Inv) (hgone : st.abandoned = true) (hcaller : Undecided st.caller)
    (hwin : st.winner = some k) : { st with winner := none, caller := .close k }.Inv := by
  refine h.callerStep rfl (Keeps.of_undecided hcaller 0).2.2 (fun j a _ ho hraced => ?_)
    (by rintro _ ⟨⟩) (fun j hj => ?_) id (fun hwaits => ?_)
    (.collected (.inr ⟨k, rfl, by rintro ⟨⟩⟩) hgone (by rintro _ _ ⟨⟩))
  · have hj := ((hraced.opened ho).winner hcaller).1
    obtain rfl := Option.some.inj (hwin.symm.trans hj)
    exact .inr rfl
  · cases hj
    exact hwin
  · change st.abandoned = false at hwaits
    rw [hgone] at hwaits
    cases hwaits

theorem Inv.choose (h : st.Inv) (hkept : st.Kept k) {c : CallerPc A}
    (hcaller : Undecided st.caller ∨ st.caller = .wrap k)
    (hc : c = .wrap k ∨ c = .close k ∨ c = .returned (some k)) : { st with caller := c }.Inv := by
  have hwin := hkept.2.1
  have hbefore : ∀ j, st.caller ≠ .close j ∧ st.caller ≠ .returned none := by
    intro j
    rcases hcaller with hcaller | hcaller
    · exact (Keeps.of_undecided hcaller j).2
    · simp [hcaller]
  refine h.callerStep rfl (hbefore 0).2 (fun j a _ ho hraced => ?_) (fun _ hwin => hwin) ?_ id
    (fun _ => ⟨rfl, rfl, hkept.1⟩) (.chosen k hc hkept)
  · obtain ⟨hj, -⟩ := (hraced.opened ho).resolve_right (hbefore j).1
    obtain rfl := Option.some.inj (hwin.symm.trans hj)
    rcases hc with rfl | rfl | rfl
    · exact .inl ⟨hwin, .inr (.inr (by simp [Keeps]))⟩
    · exact .inr rfl
    · exact .inl ⟨hwin, .inr (.inr (by simp [Keeps]))⟩
  · rintro j rfl
    obtain hc | hc | hc := hc <;> cases hc
    exact hwin

theorem closeSocket_cases {j : ℕ} (ha : (st.closeSocket k).attempts[j]? = some a) :
    ∃ b, st.attempts[j]? = some b ∧ b.pc = a.pc ∧
      a.candidate = if j = k then some .closed else b.candidate := by
  by_cases hj : j = k
  · subst hj
    obtain ⟨b, hb, rfl⟩ : ∃ b, st.attempts[j]? = some b ∧
        { b with candidate := some .closed } = a := by
      simpa [closeSocket] using ha
    exact ⟨b, hb, rfl, (if_pos rfl).symm⟩
  · refine ⟨a, ?_, rfl, (if_neg hj).symm⟩
    simpa [closeSocket, Ne.symm hj] using ha

theorem Kept.closeSocket {j : ℕ} (h : st.Kept j) (c : CallerPc A) :
    { st.closeSocket k with caller := c }.Kept j := by
  obtain ⟨hwaits, hwin, a, ha, hended⟩ := h
  by_cases hj : j = k
  · subst hj
    exact ⟨hwaits, hwin, { a with candidate := some .closed }, by simp [Race.closeSocket, ha], hended⟩
  · exact ⟨hwaits, hwin, a, by simp [Race.closeSocket, ha, Ne.symm hj], hended⟩

theorem Inv.close (h : st.Inv) (hcaller : st.caller = .close k) :
    { st.closeSocket k with caller := .returned none }.Inv := by
  have hlength : (st.closeSocket k).attempts.length = st.attempts.length := List.length_modify ..
  have hlost : st.winner = some k → st.abandoned = false := by
    cases h.phase with
    | collected hc _ _ =>
        obtain hc | ⟨j, hj, hwin⟩ := hc
        · rw [hcaller] at hc
          cases hc
        · rw [hcaller] at hj
          cases hj
          exact fun hk => absurd hk hwin
    | chosen j _ hkept => exact fun _ => hkept.1
    | _ => simp_all
  constructor
  · intro j a ha
    obtain ⟨b, hb, hpc, hcandidate⟩ := closeSocket_cases ha
    have hlost' : st.Lost j → j ≠ k ∧ st.winner ≠ some j := by
      rintro ⟨hwin, hclose⟩
      exact ⟨fun hj => hclose (hj ▸ hcaller), hwin⟩
    cases h.fits j b hb with
    | unconnected hbefore hnone hlost =>
        obtain ⟨hj, hwin⟩ := hlost' hlost
        rw [if_neg hj] at hcandidate
        exact .unconnected (hpc ▸ hbefore) (hcandidate.trans hnone) ⟨hwin, by rintro ⟨⟩⟩
    | racing hrace hopened hlost =>
        obtain ⟨hj, hwin⟩ := hlost' hlost
        rw [if_neg hj] at hcandidate
        exact .racing (hpc ▸ hrace) (hcandidate.trans hopened) ⟨hwin, by rintro ⟨⟩⟩
    | raced hraced =>
        obtain ⟨hplace, hconnected, hlate, hyielding, hwon, hopened, hclosed⟩ := hraced
        rw [hpc] at hplace hlate hyielding hwon hclosed
        by_cases hj : j = k
        · subst hj
          rw [if_pos rfl] at hcandidate
          refine .raced ⟨hplace, ?_, hlate, fun _ => hcandidate, hwon, ?_, ?_⟩
          · simp [hcandidate]
          · exact fun ho => by cases hcandidate.symm.trans ho
          · exact fun hwin _ => .inr ⟨rfl, hlost hwin⟩
        · rw [if_neg hj] at hcandidate
          rw [← hcandidate] at hconnected hyielding hopened hclosed
          refine .raced ⟨hplace, hconnected, hlate, hyielding, hwon, fun ho => ?_, ?_⟩
          · -- the caller closes another socket, so the attempt still has its own
            rcases hopened ho with ⟨hwin, hown | hown | hkeeps⟩ | hclose
            · exact .inl ⟨hwin, .inl (hpc ▸ hown)⟩
            · exact .inl ⟨hwin, .inr (.inl (hpc ▸ hown))⟩
            · exact absurd (hkeeps.2.2.2 k hcaller).symm hj
            · exact absurd (CallerPc.close.inj (hclose.symm.trans hcaller)) hj
          · intro hwin hc
            refine .inl ((hclosed hwin hc).resolve_right fun hafter => ?_)
            cases hcaller.symm.trans hafter.1
  · intro j hwin
    exact hlength.symm ▸ h.winner j hwin
  · rintro _ ⟨⟩
  · intro hzero hwaits
    obtain ⟨j, hj⟩ := h.latch hzero hwaits
    exact ⟨j, hj.closeSocket _⟩
  · cases h.phase with
    | collected hc hgone hnone =>
        refine .collected (.inl rfl) hgone fun j a hwin ha => ?_
        obtain ⟨b, hb, hpc, -⟩ := closeSocket_cases ha
        rw [← hpc]
        exact hnone j b hwin hb
    | chosen j _ hkept => exact .failed j rfl (hkept.closeSocket _)
    | _ => simp_all

theorem Inv.createSocket (h : st.Inv) {answer : Bool} (hcond : st.FailuresSafe (.caller answer))
    (hstep : st.createSocket answer st.caller = some st') : st'.Inv := by
  cases hcaller : st.caller with
  | dispatch rest =>
      rw [hcaller] at hstep
      have hopen : Undecided st.caller := by rw [hcaller]; trivial
      obtain ⟨hwaits, hempty⟩ : st.abandoned = false ∧ st.scheduled = [] := by
        cases h.phase <;> simp_all
      cases rest with
      | cons addr rest =>
          obtain rfl := Option.some.inj hstep
          have hlaunch := h.launch addr fun _ => ⟨_, hcaller⟩
          exact hlaunch.goOn hopen trivial (.waiting (.inl ⟨rest, rfl, hempty⟩) hwaits)
      | nil =>
          rw [Race.createSocket] at hstep
          split at hstep
          · obtain rfl := Option.some.inj hstep
            exact h.goOn hopen trivial (.waiting (.inr (.inl rfl)) hwaits)
          · split at hstep
            · obtain rfl := Option.some.inj hstep
              exact h.goOn hopen trivial (.waiting (.inr (.inl rfl)) hwaits)
            · obtain rfl := Option.some.inj hstep
              obtain ⟨hnone, hended⟩ : st.winner = none ∧ ∀ a ∈ st.attempts, a.pc = .ended := by
                cases answer with
                | false =>
                    rw [FailuresSafe, hcaller] at hcond
                    exact hcond (by simp_all)
                | true => simp_all
              exact h.reject hwaits hempty hnone hended hopen
  | await =>
      rw [hcaller] at hstep
      have hopen : Undecided st.caller := by rw [hcaller]; trivial
      have hwaits : st.abandoned = false := by
        cases h.phase <;> simp_all
      obtain ⟨got, hgot, rfl⟩ : ∃ got, (got = true → st.latch = 0) ∧
          st' = { st with caller := .look got } := by
        rw [Race.createSocket] at hstep
        split at hstep
        · split at hstep
          · exact ⟨true, fun _ => ‹_›, (Option.some.inj hstep).symm⟩
          · cases hstep
        · exact ⟨false, by rintro ⟨⟩, (Option.some.inj hstep).symm⟩
      exact h.goOn hopen trivial (.waiting (.inr (.inr (.inl ⟨got, rfl, hgot⟩))) hwaits)
  | look got =>
      rw [hcaller] at hstep
      have hopen : Undecided st.caller := by rw [hcaller]; trivial
      obtain ⟨hwaits, hgot⟩ : st.abandoned = false ∧ (got = true → st.latch = 0) := by
        cases h.phase <;> simp_all
      obtain ⟨k, rfl, hwin, rfl⟩ | rfl :
          (∃ k, got = true ∧ st.winner = some k ∧ st' = { st with caller := .wrap k }) ∨
            st' = { st with caller := .abandon } := by
        cases got with
        | false => exact .inr (Option.some.inj hstep).symm
        | true =>
            cases hwin : st.winner with
            | none =>
                simp only [Race.createSocket, hwin] at hstep
                exact .inr (Option.some.inj hstep).symm
            | some k =>
                simp only [Race.createSocket, hwin] at hstep
                exact .inl ⟨k, rfl, rfl, (Option.some.inj hstep).symm⟩
      · -- the latch is open, so the winner is there for good
        obtain ⟨j, hkept⟩ := h.latch (hgot rfl) hwaits
        obtain rfl := Option.some.inj (hkept.2.1.symm.trans hwin)
        exact h.choose hkept (.inl hopen) (.inl rfl)
      · exact h.goOn hopen trivial (.waiting (.inr (.inr (.inr rfl))) hwaits)
  | abandon =>
      rw [hcaller] at hstep
      obtain rfl := Option.some.inj hstep
      exact h.abandon (by rw [hcaller]; trivial)
  | sleep =>
      rw [hcaller] at hstep
      have hopen : Undecided st.caller := by rw [hcaller]; trivial
      have hgone : st.abandoned = true := by
        cases h.phase <;> simp_all
      rw [Race.createSocket] at hstep
      split at hstep
      · obtain rfl := Option.some.inj hstep
        exact h.goOn hopen trivial (.givingUp (.inr rfl) hgone)
      · obtain rfl := Option.some.inj hstep
        refine h.giveUp hgone hopen ?_
        cases answer with
        | false =>
            rw [FailuresSafe, hcaller] at hcond
            exact fun k a hwin ha => hcond k hwin a ha
        | true => simp_all
  | collect =>
      rw [hcaller] at hstep
      have hopen : Undecided st.caller := by rw [hcaller]; trivial
      have hgone : st.abandoned = true := by
        cases h.phase <;> simp_all
      rw [Race.createSocket] at hstep
      split at hstep
      · obtain rfl := Option.some.inj hstep
        exact h.collect hgone hopen ‹_›
      · obtain rfl := Option.some.inj hstep
        refine h.giveUp hgone hopen fun k a hwin => ?_
        simp_all
  | wrap k =>
      rw [hcaller] at hstep
      have hkept : st.Kept k := by
        cases h.phase <;> simp_all
      rw [Race.createSocket] at hstep
      split at hstep
      · obtain rfl := Option.some.inj hstep
        exact h.choose hkept (.inr hcaller) (.inr (.inr rfl))
      · obtain rfl := Option.some.inj hstep
        exact h.choose hkept (.inr hcaller) (.inr (.inl rfl))
  | close k =>
      rw [hcaller] at hstep
      obtain rfl := Option.some.inj hstep
      exact h.close hcaller
  | returned r =>
      rw [hcaller] at hstep
      cases hstep

theorem Inv.stagger (h : st.Inv) {addr : A} {rest : List A}
    (hscheduled : st.scheduled = addr :: rest) :
    { st.launch addr with scheduled := rest }.Inv := by
  have hlaunch := h.launch addr fun hempty => by
    rw [hscheduled] at hempty
    cases hempty
  obtain ⟨fits, winner, closing, latch, phase⟩ := hlaunch
  refine ⟨fun k a ha => (fits k a ha).congr rfl rfl Iff.rfl, winner, closing, latch, ?_⟩
  cases phase with
  | waiting hcaller hwaits =>
      obtain ⟨r, -, hempty⟩ | hcaller := hcaller
      · change st.scheduled = [] at hempty
        rw [hscheduled] at hempty
        cases hempty
      · exact .waiting (.inr hcaller) hwaits
  | givingUp hcaller hgone => exact .givingUp hcaller hgone
  | collected hcaller hgone hnone => exact .collected hcaller hgone hnone
  | chosen j hcaller hkept => exact .chosen j hcaller hkept
  | failed j hcaller hkept => exact .failed j hcaller hkept
  | rejected _ _ hempty =>
      change st.scheduled = [] at hempty
      rw [hscheduled] at hempty
      cases hempty

theorem Inv.step (h : st.Inv) {ev : RaceEvent} (hcond : st.FailuresSafe ev)
    (hstep : st.step ev = some st') : st'.Inv := by
  cases ev with
  | attempt k answer =>
      obtain ⟨a, ha, hattempt⟩ := Option.bind_eq_some_iff.mp hstep
      exact h.attempt ha hattempt
  | caller answer => exact h.createSocket hcond hstep
  | stagger =>
      simp only [Race.step] at hstep
      split at hstep
      · cases hstep
      · obtain rfl := Option.some.inj hstep
        exact h.stagger ‹_›

theorem Inv.init (isIpv6 : A → Bool) (addresses : List A) : (Race.init isIpv6 addresses).Inv where
  fits := by rintro _ _ ⟨⟩
  winner := by rintro _ ⟨⟩
  closing k hk := by
    rw [Race.init] at hk
    split at hk <;> cases hk
  latch := by rintro ⟨⟩
  phase := by
    cases addresses with
    | nil => exact .rejected rfl rfl rfl (by rintro _ ⟨⟩)
    | cons a rest => exact .waiting (.inl ⟨_, rfl, rfl⟩) rfl

theorem Inv.returned_opened (h : st.Inv) (hr : st.caller = .returned (some k)) :
    ∃ a, st.attempts[k]? = some a ∧ a.candidate = some .opened := by
  obtain ⟨-, hwin, a, ha, hended⟩ : st.Kept k := by
    cases h.phase <;> simp_all
  refine ⟨a, ha, ?_⟩
  cases h.fits k a ha with
  | unconnected _ _ hlost | racing _ _ hlost => exact absurd hwin hlost.1
  | raced hraced =>
      cases hc : a.candidate with
      | none => exact absurd hc hraced.connected
      | some s =>
          cases s with
          | opened => rfl
          | closed =>
              rcases hraced.closed hwin hc with hpc | ⟨hnone, -⟩
              · cases hended.symm.trans hpc
              · cases hr.symm.trans hnone

theorem Inv.returned_of_opened (h : st.Inv) {r : Option ℕ} (hr : st.caller = .returned r)
    (ha : st.attempts[k]? = some a) (hended : a.pc = .ended)
    (hopened : a.candidate = some .opened) : r = some k := by
  cases h.fits k a ha with
  | unconnected _ hnone => cases hnone.symm.trans hopened
  | racing hpc => simp [hended] at hpc
  | raced hraced =>
      obtain ⟨-, hpc | hpc | ⟨hnone, hsame, -⟩⟩ | hclose := hraced.opened hopened
      · cases hended.symm.trans hpc
      · cases hended.symm.trans hpc
      · cases r with
        | none => exact absurd hr hnone
        | some j => exact congrArg some (hsame j hr)
      · cases hr.symm.trans hclose

theorem attempt_caller {answer : Bool} {pc : AttemptPc}
    (hstep : st.attempt k answer pc = some st') : st'.caller = st.caller := by
  cases pc <;> rw [Race.attempt] at hstep
  case connect | race =>
    split at hstep <;> obtain rfl := Option.some.inj hstep <;> rfl
  case ended => cases hstep
  all_goals
    obtain rfl := Option.some.inj hstep
    rfl

theorem step_returned {ev : RaceEvent} {r : Option ℕ} (hr : st.caller = .returned r)
    (hstep : st.step ev = some st') : st'.caller = .returned r := by
  cases ev with
  | attempt k answer =>
      obtain ⟨a, -, hattempt⟩ := Option.bind_eq_some_iff.mp hstep
      exact (attempt_caller hattempt).trans hr
  | caller answer =>
      rw [Race.step, hr] at hstep
      cases hstep
  | stagger =>
      simp only [Race.step] at hstep
      split at hstep
      · cases hstep
      · obtain rfl := Option.some.inj hstep
        exact hr

end

end Race

end HappyEyeballs

open HappyEyeballs Race

/-- When the scheduler rejects no task while an attempt may still win, and the sleep is not
interrupted after a winner has found that the caller waits: the socket that the caller returns is
open and the only one that it ever returns, every other one is closed when its attempt has ended,
and every run comes to an end. -/
theorem no_socket_leaked {A : Type*} {isIpv6 : A → Bool} {addresses : List A}
    {evs : List RaceEvent} {st : Race A} (hcond : Meets step Race.FailuresSafe (init isIpv6 addresses) evs)
    (hrun : run step (init isIpv6 addresses) evs = some st) :
    (∀ r, st.caller = .returned r →
      (∀ k ∈ r, ∃ a, st.attempts[k]? = some a ∧ a.candidate = some .opened) ∧
      (∀ k a, st.attempts[k]? = some a → a.pc = .ended → r ≠ some k →
        a.candidate ≠ some .opened) ∧
      ∀ evs' st', run step st evs' = some st' → st'.caller = .returned r) ∧
    evs.length ≤ 8 * addresses.length + 7 ∧
    ((∀ ev, step st ev = none) →
      (∃ r, st.caller = .returned r) ∧ ∀ a ∈ st.attempts, a.pc = .ended) := by
  have hinv : st.Inv := run_invariant_of_meets (fun _ _ _ h hcond hstep => h.step hcond hstep)
    (Inv.init isIpv6 addresses) hcond hrun
  refine ⟨fun r hr => ⟨?_, ?_, ?_⟩, ?_, ended_of_stuck⟩
  · intro k hk
    exact hinv.returned_opened (hr.trans (congrArg _ hk))
  · intro k a ha hended hne hopened
    exact hne (hinv.returned_of_opened hr ha hended hopened)
  · intro evs' st' hrun'
    exact run_invariant (P := fun st => st.caller = .returned r)
      (fun _ _ _ h hstep => step_returned h hstep) hr hrun'
  · have hwork := run_work hrun
    have hinit := init_work isIpv6 addresses
    omega

/-- Both addresses connect, and the caller runs out of time just before there is a winner. -/
def lateRace : List RaceEvent :=
  List.flatten [[.caller true, .caller true, .stagger], List.replicate 3 (.attempt 0 true),
    List.replicate 3 (.attempt 1 true),
    [.caller false, .attempt 0 true, .attempt 1 true, .attempt 0 true, .caller true, .caller true,
      .attempt 0 true, .attempt 1 true],
    List.replicate 3 (.caller true)]

theorem no_socket_leaked_lateRace : ∃ st : Race ℕ,
    run step (init (fun a => a == 6) [6, 4]) lateRace = some st ∧ st.caller = .returned none ∧
      ∀ (k : ℕ) (a : Attempt ℕ), st.attempts[k]? = some a → a.pc = .ended → a.candidate ≠ some .opened := by
  obtain ⟨st, hrun, hcaller⟩ := exists_run_of_any (by decide +kernel :
    (run step (init (fun a : ℕ => a == 6) [6, 4]) lateRace).any
      (fun st => decide (st.caller = .returned none)) = true)
  refine ⟨st, hrun, hcaller, fun k a ha hended => ?_⟩
  exact ((no_socket_leaked (by decide +kernel) hrun).1 none hcaller).2.1 k a ha hended
    (by rintro ⟨⟩)

/-- The caller runs out of time just before there is a winner, and is interrupted in its sleep. -/
def interruptedRace : List RaceEvent :=
  List.flatten [[.caller true, .caller true], List.replicate 3 (.attempt 0 true), [.caller false],
    List.replicate 2 (.attempt 0 true), List.replicate 2 (.caller true),
    [.attempt 0 true, .caller false]]

def rejectedRace : List RaceEvent :=
  List.flatten [[.caller true, .caller false], List.replicate 6 (.attempt 0 true)]

/-- Both times the caller returns no socket, and the one that has connected stays open. -/
theorem winner_leaked :
    (∃ st : Race ℕ, run step (init (fun a => a == 6) [6]) interruptedRace = some st ∧
        st.caller = .returned none ∧ (∀ a ∈ st.attempts, a.pc = .ended) ∧ st.scheduled = [] ∧
          ∃ a, st.attempts[0]? = some a ∧ a.candidate = some .opened) ∧
      ∃ st : Race ℕ, run step (init (fun a => a == 6) [6, 4]) rejectedRace = some st ∧
        st.caller = .returned none ∧ (∀ a ∈ st.attempts, a.pc = .ended) ∧ st.scheduled = [] ∧
          ∃ a, st.attempts[0]? = some a ∧ a.candidate = some .opened :=
  ⟨⟨_, rfl, rfl, by decide, rfl, _, rfl, rfl⟩, ⟨_, rfl, rfl, by decide, rfl, _, rfl, rfl⟩⟩

end FiveGProxy
