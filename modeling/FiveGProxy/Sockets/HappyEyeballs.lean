import FiveGProxy.Library.Steps
import Mathlib.Data.Nat.Notation
import Mathlib.Algebra.GroupWithZero.Nat

/-!
# The connection race

`createSocketBoundToNetwork` connects to all addresses of a host at once, the IPv4 ones a little
later, and returns the first socket that connects. The attempts run on a thread pool, and meet the
caller in `winner`, `abandoned` and `latch` only. An attempt that the pool gives back to the
submitting thread is one that the others happen not to overlap.
-/

namespace FiveGProxy

open Steps

namespace HappyEyeballs

/-- Where a thread stands in `attempt`. -/
inductive AttemptPc
  /-- `winner.get() != null`. -/
  | start
  /-- `abandoned.get()`, before anything is connected. -/
  | precheck
  | connect
  /-- `winner.compareAndSet(null, candidate)`. -/
  | race
  /-- `abandoned.get()`, after the race is won. -/
  | recheck
  /-- `close(candidate)` of a late winner. -/
  | closeLate
  /-- `winner.compareAndSet(candidate, null)`. -/
  | yield
  | countDown
  /-- `close(candidate)` after the race is lost. -/
  | closeLost
  | ended
  deriving DecidableEq

inductive SocketState
  | opened | closed
  deriving DecidableEq

structure Attempt (A : Type*) where
  addr : A
  pc : AttemptPc
  /-- What `connect` has returned. -/
  candidate : Option SocketState
  deriving DecidableEq

/-- Where the caller stands in `race` and behind it. A socket is named by the index of its
attempt. -/
inductive CallerPc (A : Type*)
  /-- `first.forEach { launch(it) }`, and `scheduler` when there is nothing left. -/
  | dispatch (rest : List A)
  /-- `latch.await`. -/
  | await
  /-- `winner.get()`. -/
  | look (got : Bool)
  /-- `abandoned.set(true)`. -/
  | abandon
  /-- `Thread.sleep(50)`. -/
  | sleep
  /-- `winner.getAndSet(null)`. -/
  | collect
  /-- `ParcelFileDescriptor.fromSocket`. -/
  | wrap (k : ℕ)
  | close (k : ℕ)
  | returned (result : Option ℕ)
  deriving DecidableEq

structure Race (A : Type*) where
  /-- What is to be launched after the stagger. -/
  deferred : List A
  /-- What the scheduler has still to launch. -/
  scheduled : List A
  attempts : List (Attempt A)
  winner : Option ℕ
  abandoned : Bool
  latch : ℕ
  caller : CallerPc A

inductive RaceEvent
  /-- The next step of the attempt with this index; `answer` says whether `connect` succeeds. -/
  | attempt (k : ℕ) (answer : Bool)
  /-- The next step of the caller. With the answer no the scheduler rejects the task, the wait runs
  out of time or is interrupted, the sleep is interrupted, or `fromSocket` throws. -/
  | caller (answer : Bool)
  /-- The scheduler launches the next attempt. -/
  | stagger
  deriving DecidableEq

namespace Race

variable {A : Type*}

def init (isIpv6 : A → Bool) (addresses : List A) : Race A where
  deferred := addresses.filter fun a => !isIpv6 a
  scheduled := []
  attempts := []
  winner := none
  abandoned := false
  latch := 1
  caller := if addresses.isEmpty then .returned none else .dispatch (addresses.filter isIpv6)

def launch (st : Race A) (a : A) : Race A :=
  { st with attempts := st.attempts ++ [⟨a, .start, none⟩] }

def goto (st : Race A) (k : ℕ) (pc : AttemptPc) : Race A :=
  { st with attempts := st.attempts.modify k fun a => { a with pc := pc } }

def closeSocket (st : Race A) (k : ℕ) : Race A :=
  { st with attempts := st.attempts.modify k fun a => { a with candidate := some .closed } }

def attempt (st : Race A) (k : ℕ) (answer : Bool) : AttemptPc → Option (Race A)
  | .start => some (st.goto k (if st.winner ≠ none then .ended else .precheck))
  | .precheck => some (st.goto k (if st.abandoned then .ended else .connect))
  | .connect =>
      if answer then
        some { st with
          attempts := st.attempts.modify k fun a => { a with pc := .race, candidate := some .opened } }
      else some (st.goto k .ended)
  | .race =>
      if st.winner = none then some { st.goto k .recheck with winner := some k }
      else some (st.goto k .closeLost)
  | .recheck => some (st.goto k (if st.abandoned then .closeLate else .countDown))
  | .closeLate => some ((st.closeSocket k).goto k .yield)
  | .yield =>
      some { st.goto k .ended with winner := if st.winner = some k then none else st.winner }
  | .countDown => some { st.goto k .ended with latch := st.latch - 1 }
  | .closeLost => some ((st.closeSocket k).goto k .ended)
  | .ended => none

def createSocket (st : Race A) (answer : Bool) : CallerPc A → Option (Race A)
  | .dispatch (a :: rest) => some { st.launch a with caller := .dispatch rest }
  | .dispatch [] =>
      if st.deferred.isEmpty then some { st with caller := .await }
      else if answer then some { st with scheduled := st.deferred, caller := .await }
      else some { st with caller := .returned none }
  | .await =>
      if answer then if st.latch = 0 then some { st with caller := .look true } else none
      else some { st with caller := .look false }
  | .look got =>
      match got, st.winner with
      | true, some k => some { st with caller := .wrap k }
      | _, _ => some { st with caller := .abandon }
  | .abandon => some { st with abandoned := true, caller := .sleep }
  | .sleep =>
      if answer then some { st with caller := .collect } else some { st with caller := .returned none }
  | .collect =>
      match st.winner with
      | some k => some { st with winner := none, caller := .close k }
      | none => some { st with caller := .returned none }
  | .wrap k =>
      if answer then some { st with caller := .returned (some k) }
      else some { st with caller := .close k }
  | .close k => some { st.closeSocket k with caller := .returned none }
  | .returned _ => none

def step (st : Race A) : RaceEvent → Option (Race A)
  | .attempt k answer => (st.attempts[k]?).bind fun a => st.attempt k answer a.pc
  | .caller answer => st.createSocket answer st.caller
  | .stagger =>
      match st.scheduled with
      | [] => none
      | a :: rest => some { st.launch a with scheduled := rest }

end Race

/-! ### The end of the race -/

def AttemptPc.work : AttemptPc → ℕ
  | .start => 7
  | .precheck => 6
  | .connect => 5
  | .race => 4
  | .recheck => 3
  | .closeLate => 2
  | .yield | .countDown | .closeLost => 1
  | .ended => 0

/-- How many steps the caller can still take, with those of the attempts that it brings about. -/
def CallerPc.work {A : Type*} (deferred : ℕ) : CallerPc A → ℕ
  | .dispatch rest => 8 * rest.length + 8 * deferred + 7
  | .await => 6
  | .look _ => 5
  | .abandon => 4
  | .sleep => 3
  | .collect | .wrap _ => 2
  | .close _ => 1
  | .returned _ => 0

namespace Race

variable {A : Type*} {st st' : Race A} {k : ℕ} {a : Attempt A} {f : Attempt A → Attempt A}

def work (st : Race A) : ℕ :=
  st.caller.work st.deferred.length + 8 * st.scheduled.length +
    (st.attempts.map fun a => a.pc.work).sum

theorem sum_map_modify {l : List (Attempt A)} (g : Attempt A → ℕ) (ha : l[k]? = some a) :
    ((l.modify k f).map g).sum + g a = (l.map g).sum + g (f a) := by
  induction l generalizing k with
  | nil => cases ha
  | cons b l ih =>
      cases k with
      | zero =>
          obtain rfl := Option.some.inj ha
          simp only [List.modify_zero_cons, List.map_cons, List.sum_cons]
          omega
      | succ k =>
          have hrest := ih ha
          simp only [List.modify_succ_cons, List.map_cons, List.sum_cons]
          omega

theorem work_modify (ha : st.attempts[k]? = some a)
    (hattempts : st'.attempts = st.attempts.modify k f) (hcaller : st'.caller = st.caller)
    (hdeferred : st'.deferred = st.deferred) (hscheduled : st'.scheduled = st.scheduled)
    (hless : (f a).pc.work < a.pc.work) : st'.work < st.work := by
  have hsum := sum_map_modify (f := f) (fun a => a.pc.work) ha
  rw [work, work, hattempts, hcaller, hdeferred, hscheduled]
  omega

theorem closeSocket_goto (pc : AttemptPc) : (st.closeSocket k).goto k pc =
    { st with
      attempts := st.attempts.modify k fun a => { a with pc := pc, candidate := some .closed } } := by
  simp only [goto, closeSocket, List.modify_modify_eq]
  rfl

theorem attempt_work {answer : Bool} (ha : st.attempts[k]? = some a)
    (hstep : st.attempt k answer a.pc = some st') : st'.work < st.work := by
  cases hpc : a.pc <;> rw [hpc] at hstep
  case ended => cases hstep
  case start | precheck | recheck =>
    obtain rfl := Option.some.inj hstep
    refine work_modify ha rfl rfl rfl rfl ?_
    dsimp only
    split <;> simp [hpc, AttemptPc.work]
  case connect | race =>
    rw [Race.attempt] at hstep
    split at hstep <;> obtain rfl := Option.some.inj hstep <;>
      exact work_modify ha rfl rfl rfl rfl (by simp [hpc, AttemptPc.work])
  case closeLate | closeLost =>
    obtain rfl := Option.some.inj hstep
    rw [closeSocket_goto]
    exact work_modify ha rfl rfl rfl rfl (by simp [hpc, AttemptPc.work])
  case yield | countDown =>
    obtain rfl := Option.some.inj hstep
    exact work_modify ha rfl rfl rfl rfl (by simp [hpc, AttemptPc.work])

theorem closeSocket_sum (k : ℕ) :
    ((st.closeSocket k).attempts.map fun a => a.pc.work).sum =
      (st.attempts.map fun a => a.pc.work).sum := by
  refine congrArg List.sum (List.ext_getElem? fun j => ?_)
  by_cases hj : k = j
  · subst hj
    cases ha : st.attempts[k]? <;> simp [closeSocket, ha]
  · simp [closeSocket, hj]

theorem caller_work (hsum : (st'.attempts.map fun a => a.pc.work).sum =
      (st.attempts.map fun a => a.pc.work).sum) (hscheduled : st'.scheduled = st.scheduled)
    (hless : st'.caller.work st'.deferred.length < st.caller.work st.deferred.length) :
    st'.work < st.work := by
  rw [work, work, hsum, hscheduled]
  omega

theorem createSocket_work {answer : Bool}
    (hstep : st.createSocket answer st.caller = some st') : st'.work < st.work := by
  cases hcaller : st.caller <;> rw [hcaller] at hstep
  case dispatch rest =>
    cases rest with
    | cons addr rest =>
        obtain rfl := Option.some.inj hstep
        simp only [work, hcaller, CallerPc.work, launch, AttemptPc.work, List.map_append,
          List.sum_append, List.map_cons, List.map_nil, List.sum_cons, List.sum_nil,
          List.length_cons]
        omega
    | nil =>
        rw [Race.createSocket] at hstep
        split at hstep
        · obtain rfl := Option.some.inj hstep
          exact caller_work rfl rfl (by simp [hcaller, CallerPc.work])
        · split at hstep <;> obtain rfl := Option.some.inj hstep
          · simp only [work, hcaller, CallerPc.work, List.length_nil]
            omega
          · exact caller_work rfl rfl (by simp [hcaller, CallerPc.work])
  case look got =>
    have hnext : st'.attempts = st.attempts ∧ st'.scheduled = st.scheduled ∧
        st'.deferred = st.deferred ∧ (st'.caller = .abandon ∨ ∃ k, st'.caller = .wrap k) := by
      cases got <;> cases hwin : st.winner <;> simp only [Race.createSocket, hwin] at hstep <;>
        obtain rfl := Option.some.inj hstep <;> simp
    obtain ⟨hattempts, hscheduled, hdeferred, hc⟩ := hnext
    refine caller_work (by rw [hattempts]) hscheduled ?_
    rcases hc with hc | ⟨k, hc⟩ <;> simp [hcaller, hc, CallerPc.work]
  case collect =>
    rw [Race.createSocket] at hstep
    split at hstep <;> obtain rfl := Option.some.inj hstep <;>
      exact caller_work rfl rfl (by simp [hcaller, CallerPc.work])
  case close k =>
    obtain rfl := Option.some.inj hstep
    exact caller_work (closeSocket_sum k) rfl (by simp [hcaller, CallerPc.work])
  case returned => cases hstep
  case abandon =>
    obtain rfl := Option.some.inj hstep
    exact caller_work rfl rfl (by simp [hcaller, CallerPc.work])
  case await =>
    rw [Race.createSocket] at hstep
    split at hstep
    · split at hstep
      · obtain rfl := Option.some.inj hstep
        exact caller_work rfl rfl (by simp [hcaller, CallerPc.work])
      · cases hstep
    · obtain rfl := Option.some.inj hstep
      exact caller_work rfl rfl (by simp [hcaller, CallerPc.work])
  case sleep | wrap =>
    rw [Race.createSocket] at hstep
    split at hstep <;> obtain rfl := Option.some.inj hstep <;>
      exact caller_work rfl rfl (by simp [hcaller, CallerPc.work])

theorem step_work {ev : RaceEvent} (hstep : st.step ev = some st') : st'.work < st.work := by
  cases ev with
  | attempt k answer =>
      obtain ⟨a, ha, hattempt⟩ := Option.bind_eq_some_iff.mp hstep
      exact attempt_work ha hattempt
  | caller answer => exact createSocket_work hstep
  | stagger =>
      simp only [Race.step] at hstep
      split at hstep
      · cases hstep
      · rename_i addr rest hscheduled
        obtain rfl := Option.some.inj hstep
        simp only [work, launch, AttemptPc.work, hscheduled, List.map_append, List.sum_append,
          List.map_cons, List.map_nil, List.sum_cons, List.sum_nil, List.length_cons]
        omega

theorem run_work {evs : List RaceEvent} (hrun : run step st evs = some st') :
    evs.length + st'.work ≤ st.work := by
  induction evs generalizing st with
  | nil =>
      obtain rfl := Option.some.inj hrun
      simp
  | cons ev evs ih =>
      obtain ⟨u, hu, hrest⟩ := run_cons_eq_some.mp hrun
      have hless := step_work hu
      have hle := ih hrest
      rw [List.length_cons]
      omega

theorem init_work (isIpv6 : A → Bool) (addresses : List A) :
    (init isIpv6 addresses).work ≤ 8 * addresses.length + 7 := by
  have hsplit : (addresses.filter isIpv6).length + (addresses.filter fun a => !isIpv6 a).length =
      addresses.length := by
    induction addresses with
    | nil => rfl
    | cons a rest ih =>
        cases ha : isIpv6 a <;> simp [ha] <;> omega
  cases addresses with
  | nil => simp [init, work, CallerPc.work]
  | cons a rest =>
      simp only [init, work, CallerPc.work, List.isEmpty_cons, Bool.false_eq_true, if_false,
        List.map_nil, List.sum_nil, List.length_nil]
      omega

/-- When nothing can happen any more, the caller has returned and every attempt has ended. -/
theorem ended_of_stuck (hstuck : ∀ ev, st.step ev = none) :
    (∃ r, st.caller = .returned r) ∧ ∀ a ∈ st.attempts, a.pc = .ended := by
  constructor
  · have hcaller := hstuck (.caller false)
    simp only [step] at hcaller
    cases hc : st.caller <;> rw [hc] at hcaller
    case returned r => exact ⟨r, rfl⟩
    case dispatch rest =>
      cases rest with
      | nil =>
          rw [Race.createSocket] at hcaller
          split at hcaller
          · cases hcaller
          · cases hcaller
      | cons => cases hcaller
    case look got =>
      cases got <;> cases hwin : st.winner <;> simp [Race.createSocket, hwin] at hcaller
    case collect =>
      cases hwin : st.winner <;> simp [Race.createSocket, hwin] at hcaller
    all_goals cases hcaller
  · intro a ha
    obtain ⟨k, hk⟩ := List.mem_iff_getElem?.mp ha
    have hattempt := hstuck (.attempt k true)
    simp only [step, hk, Option.bind_some] at hattempt
    cases hpc : a.pc <;> rw [hpc] at hattempt
    case race =>
      rw [Race.attempt] at hattempt
      split at hattempt <;> cases hattempt
    all_goals cases hattempt

end Race

end HappyEyeballs

end FiveGProxy
