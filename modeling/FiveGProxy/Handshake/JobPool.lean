import FiveGProxy.Library.RingBuffer
import FiveGProxy.Library.Steps
import FiveGProxy.Library.Tally
import Mathlib.Algebra.Order.BigOperators.Group.Finset
import Mathlib.Data.Fintype.Basic

/-!
# The pool of handshake threads

The listener puts the descriptors that it accepts into a ring buffer (`job_pool_enqueue`), and the
workers take them out and run the handshake (`job_pool_worker`). `job_pool_shutdown` sets `stop` and
wakes all of them; they leave when the ring is empty.

Each step is one section under `lock`, or one that the worker makes outside of it. A signal wakes at
least one worker that waits, and a worker may wake without one. The number of a call and the lists of
its results are not in the code.
-/

namespace FiveGProxy

open Steps

/-- `pool_job_t`, with the call of `job_pool_enqueue` that it comes from. -/
structure PoolJob where
  fd : ℤ
  cmd : ℤ
  call : ℕ
  deriving DecidableEq

structure JobPool (cap : ℕ) where
  jobs : ℕ → PoolJob
  head : ℕ
  tail : ℕ
  count : ℕ
  stop : Bool

namespace JobPool

variable {cap : ℕ}

def push (p : JobPool cap) (job : PoolJob) : JobPool cap :=
  { p with
    jobs := Function.update p.jobs p.tail job
    tail := (p.tail + 1) % cap
    count := p.count + 1 }

def pop (p : JobPool cap) : JobPool cap :=
  { p with
    head := (p.head + 1) % cap
    count := p.count - 1 }

end JobPool

/-- `job_pool_enqueue`; `none` is the return value `-1`. -/
def jobPoolEnqueue {cap : ℕ} (p : JobPool cap) (job : PoolJob) : Option (JobPool cap) :=
  if p.stop = true ∨ p.count ≥ cap then none else some (p.push job)

/-- What a worker does once it has the lock. -/
inductive PoolTurn (cap : ℕ)
  | wait
  | leave
  | run (job : PoolJob) (p : JobPool cap)

/-- The section of the loop of `job_pool_worker`, from the test of the inner loop on. -/
def jobPoolTurn {cap : ℕ} (p : JobPool cap) : PoolTurn cap :=
  if p.count = 0 ∧ p.stop = false then .wait
  else if p.count = 0 then .leave
  else .run (p.jobs p.head) p.pop

/-- Where a worker is. -/
inductive PoolPc
  /-- In front of `pthread_mutex_lock`. -/
  | lock
  /-- In `pthread_cond_wait`. -/
  | waiting
  /-- On the way out of `pthread_cond_wait`. -/
  | woken
  /-- In front of `p->handler(job)`. -/
  | call (job : PoolJob)
  | handler
  | exited
  deriving DecidableEq

/-- The pool and its workers, with the jobs that were accepted, rejected, taken out and handed to the
handler so far. -/
structure PoolRun (n cap : ℕ) where
  pool : JobPool cap
  pc : Fin n → PoolPc
  calls : ℕ
  accepted : List PoolJob
  rejected : List PoolJob
  taken : List PoolJob
  handled : List PoolJob

inductive PoolEvent (n : ℕ)
  /-- A call of `job_pool_enqueue`, and the workers that its signal wakes. -/
  | enqueue (fd cmd : ℤ) (signalled : Fin n → Bool)
  | turn (w : Fin n)
  /-- The handler is called. -/
  | call (w : Fin n)
  /-- The handler returns. -/
  | finish (w : Fin n)
  | spurious (w : Fin n)
  /-- The section of `job_pool_shutdown`. -/
  | shutdown

variable {n cap : ℕ}

namespace PoolRun

def setPc (s : PoolRun n cap) (w : Fin n) (pc : PoolPc) : PoolRun n cap :=
  { s with pc := Function.update s.pc w pc }

def wake (s : PoolRun n cap) (signalled : Fin n → Bool) : Fin n → PoolPc := fun w =>
  if signalled w = true then .woken else s.pc w

/-- `pthread_cond_signal` wakes waiting workers only, and at least one if there is one. -/
def Signals (s : PoolRun n cap) (signalled : Fin n → Bool) : Prop :=
  (∀ w, signalled w = true → s.pc w = .waiting) ∧
    ((∃ w, s.pc w = .waiting) → ∃ w, signalled w = true)

instance (s : PoolRun n cap) (signalled : Fin n → Bool) : Decidable (s.Signals signalled) :=
  inferInstanceAs (Decidable (_ ∧ _))

/-- `stop` is set and all workers wake. -/
def stopAll (s : PoolRun n cap) : PoolRun n cap :=
  { s with
    pool := { s.pool with stop := true }
    pc := s.wake fun w => decide (s.pc w = .waiting) }

/-- The state that `job_pool_init` leaves; the array is not initialised. -/
def init (n cap : ℕ) (jobs : ℕ → PoolJob) : PoolRun n cap where
  pool := ⟨jobs, 0, 0, 0, false⟩
  pc := fun _ => .lock
  calls := 0
  accepted := []
  rejected := []
  taken := []
  handled := []

end PoolRun

open PoolRun in
def poolStep (s : PoolRun n cap) : PoolEvent n → Option (PoolRun n cap)
  | .enqueue fd cmd signalled =>
      match jobPoolEnqueue s.pool ⟨fd, cmd, s.calls⟩ with
      | none => some { s with calls := s.calls + 1, rejected := s.rejected ++ [⟨fd, cmd, s.calls⟩] }
      | some p =>
          if s.Signals signalled then
            some { s with
              pool := p
              pc := s.wake signalled
              calls := s.calls + 1
              accepted := s.accepted ++ [⟨fd, cmd, s.calls⟩] }
          else none
  | .turn w =>
      if s.pc w = .lock ∨ s.pc w = .woken then
        match jobPoolTurn s.pool with
        | .wait => some (s.setPc w .waiting)
        | .leave => some (s.setPc w .exited)
        | .run job p => some { s.setPc w (.call job) with pool := p, taken := s.taken ++ [job] }
      else none
  | .call w =>
      match s.pc w with
      | .call job => some { s.setPc w .handler with handled := s.handled ++ [job] }
      | _ => none
  | .finish w => if s.pc w = .handler then some (s.setPc w .lock) else none
  | .spurious w => if s.pc w = .waiting then some (s.setPc w .woken) else none
  | .shutdown => some s.stopAll

/-- The steps one by one. -/
inductive PoolTransition (s : PoolRun n cap) : PoolEvent n → PoolRun n cap → Prop
  | reject (fd cmd : ℤ) (signalled : Fin n → Bool) (hfull : s.pool.stop = true ∨ s.pool.count ≥ cap) :
      PoolTransition s (.enqueue fd cmd signalled)
        { s with calls := s.calls + 1, rejected := s.rejected ++ [⟨fd, cmd, s.calls⟩] }
  | accept (fd cmd : ℤ) (signalled : Fin n → Bool) (hstop : s.pool.stop = false)
      (hroom : s.pool.count < cap) (hsignals : s.Signals signalled) :
      PoolTransition s (.enqueue fd cmd signalled) { s with
        pool := s.pool.push ⟨fd, cmd, s.calls⟩
        pc := s.wake signalled
        calls := s.calls + 1
        accepted := s.accepted ++ [⟨fd, cmd, s.calls⟩] }
  | wait (w : Fin n) (hpc : s.pc w = .lock ∨ s.pc w = .woken) (hcount : s.pool.count = 0)
      (hstop : s.pool.stop = false) : PoolTransition s (.turn w) (s.setPc w .waiting)
  | leave (w : Fin n) (hpc : s.pc w = .lock ∨ s.pc w = .woken) (hcount : s.pool.count = 0)
      (hstop : s.pool.stop = true) : PoolTransition s (.turn w) (s.setPc w .exited)
  | take (w : Fin n) (hpc : s.pc w = .lock ∨ s.pc w = .woken) (hcount : 0 < s.pool.count) :
      PoolTransition s (.turn w) { s with
        pool := s.pool.pop
        pc := Function.update s.pc w (.call (s.pool.jobs s.pool.head))
        taken := s.taken ++ [s.pool.jobs s.pool.head] }
  | call (w : Fin n) (job : PoolJob) (hpc : s.pc w = .call job) :
      PoolTransition s (.call w) { s with
        pc := Function.update s.pc w .handler
        handled := s.handled ++ [job] }
  | finish (w : Fin n) (hpc : s.pc w = .handler) : PoolTransition s (.finish w) (s.setPc w .lock)
  | spurious (w : Fin n) (hpc : s.pc w = .waiting) : PoolTransition s (.spurious w) (s.setPc w .woken)
  | shutdown : PoolTransition s .shutdown s.stopAll

section

variable {s t : PoolRun n cap} {e : PoolEvent n}

theorem poolTransition_of_step (h : poolStep s e = some t) : PoolTransition s e t := by
  cases e with
  | enqueue fd cmd signalled =>
      simp only [poolStep, jobPoolEnqueue] at h
      by_cases hfull : s.pool.stop = true ∨ s.pool.count ≥ cap
      · rw [if_pos hfull] at h
        cases h
        exact .reject fd cmd signalled hfull
      · rw [if_neg hfull] at h
        by_cases hsignals : s.Signals signalled
        · simp only [if_pos hsignals] at h
          cases h
          obtain ⟨hstop, hroom⟩ := not_or.mp hfull
          exact .accept fd cmd signalled (Bool.eq_false_iff.mpr hstop) (not_le.mp hroom) hsignals
        · simp only [if_neg hsignals] at h
          cases h
  | turn w =>
      simp only [poolStep, jobPoolTurn] at h
      by_cases hpc : s.pc w = .lock ∨ s.pc w = .woken
      case neg =>
        rw [if_neg hpc] at h
        cases h
      rw [if_pos hpc] at h
      by_cases hcount : s.pool.count = 0
      · cases hstop : s.pool.stop with
        | false =>
            simp only [hcount, hstop, and_self, if_true] at h
            cases h
            exact .wait w hpc hcount hstop
        | true =>
            simp only [hcount, hstop, Bool.true_eq_false, and_false, if_false, if_true] at h
            cases h
            exact .leave w hpc hcount hstop
      · simp only [hcount, false_and, if_false] at h
        cases h
        exact .take w hpc (Nat.pos_of_ne_zero hcount)
  | call w =>
      simp only [poolStep] at h
      split at h
      case h_1 job hpc =>
        cases h
        exact .call w job hpc
      case h_2 => cases h
  | finish w =>
      simp only [poolStep] at h
      split at h
      case isTrue hpc =>
        cases h
        exact .finish w hpc
      case isFalse => cases h
  | spurious w =>
      simp only [poolStep] at h
      split at h
      case isTrue hpc =>
        cases h
        exact .spurious w hpc
      case isFalse => cases h
  | shutdown =>
      cases h
      exact .shutdown

end

/-! ### The ring -/

namespace JobPool

variable (p : JobPool cap)

/-- `head`, `tail` and `count` belong together. -/
structure Consistent : Prop where
  head_lt : p.head < cap
  tail_eq : p.tail = (p.head + p.count) % cap
  count_le : p.count ≤ cap

def queue : List PoolJob := (List.range p.count).map fun i => p.jobs ((p.head + i) % cap)

variable {p}

def ring (h : p.Consistent) : RingBuffer PoolJob cap where
  slots i := p.jobs i
  head := p.head
  tail := p.tail
  count := p.count
  head_lt := h.head_lt
  tail_eq := h.tail_eq
  count_le := h.count_le

theorem queue_eq_contents (h : p.Consistent) : p.queue = (ring h).contents := rfl

@[simp] theorem length_queue : p.queue.length = p.count := by simp [queue]

theorem Consistent.tail_lt (h : p.Consistent) : p.tail < cap := (ring h).tail_lt

theorem Consistent.push (h : p.Consistent) (hroom : p.count < cap) (job : PoolJob) :
    (p.push job).Consistent ∧ (p.push job).queue = p.queue ++ [job] := by
  have hcons : (p.push job).Consistent :=
    ⟨h.head_lt, by rw [JobPool.push, h.tail_eq, Nat.mod_add_mod, Nat.add_assoc], hroom⟩
  have hslots : Function.update (ring h).slots ⟨p.tail, h.tail_lt⟩ job = (ring hcons).slots := by
    funext i
    simp only [ring, JobPool.push, Function.update_apply, Fin.ext_iff]
  have henqueue : (ring h).enqueue job = some (ring hcons) := by
    rw [RingBuffer.enqueue, dif_pos (show (ring h).count < cap from hroom)]
    show some (RingBuffer.mk (Function.update (ring h).slots ⟨p.tail, h.tail_lt⟩ job) ..) = _
    rw [hslots]
    rfl
  rw [queue_eq_contents h, queue_eq_contents hcons]
  exact ⟨hcons, RingBuffer.contents_enqueue henqueue⟩

theorem Consistent.pop (h : p.Consistent) (hcount : 0 < p.count) :
    p.pop.Consistent ∧ p.queue = p.jobs p.head :: p.pop.queue := by
  have hcons : p.pop.Consistent := by
    refine ⟨(ring h).mod_lt _, ?_, (Nat.sub_le ..).trans h.count_le⟩
    show p.tail = ((p.head + 1) % cap + (p.count - 1)) % cap
    rw [h.tail_eq, Nat.mod_add_mod, Nat.add_assoc, Nat.add_sub_cancel' hcount]
  have hdequeue : (ring h).dequeue = some (p.jobs p.head, ring hcons) := dif_pos hcount
  rw [queue_eq_contents h, queue_eq_contents hcons]
  exact ⟨hcons, RingBuffer.contents_dequeue hdequeue⟩

end JobPool

/-! ### How many workers are where -/

def poolTotal (f : PoolPc → ℕ) (pc : Fin n → PoolPc) : ℕ := ∑ w, f (pc w)

/-- How many workers are at `x`. -/
abbrev poolNumber (pc : Fin n → PoolPc) (x : PoolPc) : ℕ :=
  poolTotal (fun y => if y = x then 1 else 0) pc

theorem poolTotal_update (f : PoolPc → ℕ) (pc : Fin n → PoolPc) (w : Fin n) (x : PoolPc) :
    poolTotal f (Function.update pc w x) + f (pc w) = poolTotal f pc + f x :=
  Tally.sum_update f pc w x

section

variable {pc : Fin n → PoolPc} {w : Fin n} {x y : PoolPc}

theorem poolNumber_update_le (hnew : x ≠ y) :
    poolNumber (Function.update pc w x) y ≤ poolNumber pc y := by
  have h := poolTotal_update (fun z => if z = y then 1 else 0) pc w x
  simp only [if_neg hnew] at h
  exact (Nat.le_add_right ..).trans h.le

theorem le_poolNumber_update (hold : pc w ≠ y) :
    poolNumber pc y ≤ poolNumber (Function.update pc w x) y := by
  have h := poolTotal_update (fun z => if z = y then 1 else 0) pc w x
  simp only [if_neg hold] at h
  exact (Nat.le_add_right ..).trans h.ge

theorem poolNumber_update_of_ne (hold : pc w ≠ y) (hnew : x ≠ y) :
    poolNumber (Function.update pc w x) y = poolNumber pc y :=
  le_antisymm (poolNumber_update_le hnew) (le_poolNumber_update hold)

/-- A worker comes to `y`. -/
theorem poolNumber_update_self (hold : pc w ≠ y) :
    poolNumber (Function.update pc w y) y = poolNumber pc y + 1 := by
  have h := poolTotal_update (fun z => if z = y then 1 else 0) pc w y
  simpa only [if_neg hold, if_true, Nat.add_zero] using h

/-- A worker leaves `y`. -/
theorem poolNumber_update_add_one (hold : pc w = y) (hnew : x ≠ y) :
    poolNumber (Function.update pc w x) y + 1 = poolNumber pc y := by
  have h := poolTotal_update (fun z => if z = y then 1 else 0) pc w x
  simpa only [hold, if_neg hnew, if_true, Nat.add_zero] using h

theorem poolNumber_le_update_add_one :
    poolNumber pc y ≤ poolNumber (Function.update pc w x) y + 1 := by
  have h : poolNumber (Function.update pc w x) y + (if pc w = y then 1 else 0) =
      poolNumber pc y + if x = y then 1 else 0 := poolTotal_update _ pc w x
  split_ifs at h <;> omega

theorem poolNumber_pos : 0 < poolNumber pc x ↔ ∃ w, pc w = x := by
  refine (Finset.sum_pos_iff).trans ⟨?_, ?_⟩
  · rintro ⟨w, -, hw⟩
    exact ⟨w, by_contra fun hne => absurd hw (by simp [hne])⟩
  · rintro ⟨w, hw⟩
    exact ⟨w, Finset.mem_univ w, by simp [hw]⟩

theorem poolNumber_eq_zero : poolNumber pc x = 0 ↔ ∀ w, pc w ≠ x := by
  rw [← Nat.le_zero, ← not_lt, poolNumber_pos, not_exists]

end

section

variable {s : PoolRun n cap} {signalled : Fin n → Bool}

/-- Waking is not seen by an amount that does not tell the two apart. -/
theorem poolTotal_wake {f : PoolPc → ℕ} (hf : f .woken = f .waiting)
    (h : ∀ w, signalled w = true → s.pc w = .waiting) :
    poolTotal f (s.wake signalled) = poolTotal f s.pc := by
  refine Finset.sum_congr rfl fun w _ => ?_
  unfold PoolRun.wake
  split
  case isTrue hw => rw [hf, h w hw]
  case isFalse => rfl

theorem poolNumber_wake (h : ∀ w, signalled w = true → s.pc w = .waiting) :
    poolNumber (s.wake signalled) .waiting + poolNumber (s.wake signalled) .woken =
        poolNumber s.pc .waiting + poolNumber s.pc .woken ∧
      poolNumber (s.wake signalled) .waiting ≤ poolNumber s.pc .waiting ∧
      ((∃ w, signalled w = true) →
        poolNumber (s.wake signalled) .waiting < poolNumber s.pc .waiting) := by
  have hle : ∀ w, (if s.wake signalled w = .waiting then 1 else 0) ≤
      if s.pc w = .waiting then 1 else 0 := by
    intro w
    unfold PoolRun.wake
    split
    case isTrue => exact Nat.zero_le _
    case isFalse => exact le_rfl
  refine ⟨?_, Finset.sum_le_sum fun w _ => hle w, fun ⟨w, hw⟩ => ?_⟩
  · rw [poolNumber, poolNumber, poolTotal, poolTotal, ← Finset.sum_add_distrib, poolNumber,
      poolNumber, poolTotal, poolTotal, ← Finset.sum_add_distrib]
    refine Finset.sum_congr rfl fun w _ => ?_
    unfold PoolRun.wake
    split
    case isTrue hw => simp [h w hw]
    case isFalse => rfl
  · refine Finset.sum_lt_sum (fun w _ => hle w) ⟨w, Finset.mem_univ w, ?_⟩
    simp [PoolRun.wake, hw, h w hw]

theorem wake_eq_iff (h : ∀ w, signalled w = true → s.pc w = .waiting) {x : PoolPc}
    (hwaiting : x ≠ .waiting) (hwoken : x ≠ .woken) (w : Fin n) :
    s.wake signalled w = x ↔ s.pc w = x := by
  unfold PoolRun.wake
  split
  case isTrue hw => simp [h w hw, hwaiting.symm, hwoken.symm]
  case isFalse => exact Iff.rfl

end

/-! ### The invariant -/

/-- What holds after every step. -/
structure PoolInv (s : PoolRun n cap) : Prop where
  consistent : s.pool.Consistent
  /-- Jobs leave in the order in which they came. -/
  fifo : s.accepted = s.taken ++ s.pool.queue
  numbered : ∀ job ∈ s.accepted ++ s.rejected, job.call < s.calls
  ordered : s.accepted.Pairwise (·.call < ·.call)
  apart : ∀ a ∈ s.accepted, ∀ r ∈ s.rejected, a.call ≠ r.call
  /-- A job that was taken has been handed to the handler, or a worker is about to. -/
  inHand : ∀ job, s.taken.count job = s.handled.count job + poolNumber s.pc (.call job)
  /-- There are enough workers on their way for the jobs that wait. -/
  signalled : 0 < poolNumber s.pc .waiting → s.pool.count ≤ poolNumber s.pc .woken
  stopped : s.pool.stop = true → poolNumber s.pc .waiting = 0
  drained : ∀ w, s.pc w = .exited → s.pool.stop = true ∧ s.pool.count = 0

namespace PoolInv

theorem init (hcap : 0 < cap) (jobs : ℕ → PoolJob) : PoolInv (PoolRun.init n cap jobs) where
  consistent := ⟨hcap, (Nat.zero_mod cap).symm, Nat.zero_le cap⟩
  fifo := rfl
  numbered := nofun
  ordered := .nil
  apart := nofun
  inHand job := by
    have hnone : poolNumber (PoolRun.init n cap jobs).pc (.call job) = 0 :=
      poolNumber_eq_zero.mpr fun w => nofun
    rw [hnone]
    rfl
  signalled _ := Nat.zero_le _
  stopped := nofun
  drained := nofun

variable {s t : PoolRun n cap} {e : PoolEvent n}

theorem update_ne_exited {pc : Fin n → PoolPc} {w : Fin n} {x : PoolPc} (hx : x ≠ .exited) {v : Fin n}
    (hv : Function.update pc w x v = .exited) : pc v = .exited := by
  rw [Function.update_apply] at hv
  split at hv
  case isTrue => exact absurd hv hx
  case isFalse => exact hv

theorem setPc (h : PoolInv s) {w : Fin n} {x : PoolPc} (hold : ∀ job, s.pc w ≠ .call job)
    (hnew : ∀ job, x ≠ .call job) (hwaiting : x = .waiting → s.pool.stop = false)
    (hexited : x = .exited → s.pool.stop = true)
    (hcount : s.pool.count = 0 ∨ s.pc w ≠ .woken ∧ x ≠ .waiting ∧ x ≠ .exited) :
    PoolInv (s.setPc w x) where
  consistent := h.consistent
  fifo := h.fifo
  numbered := h.numbered
  ordered := h.ordered
  apart := h.apart
  inHand job := (h.inHand job).trans
    (congrArg _ (poolNumber_update_of_ne (hold job) (hnew job)).symm)
  signalled hpos := by
    rcases hcount with hzero | ⟨hwoken, hx, -⟩
    · exact hzero.trans_le (Nat.zero_le _)
    · have hbefore := hpos.trans_le (poolNumber_update_le hx)
      exact (h.signalled hbefore).trans (le_poolNumber_update hwoken)
  stopped hstop := by
    have hx : x ≠ .waiting := fun hx => Bool.false_ne_true ((hwaiting hx).symm.trans hstop)
    exact Nat.le_zero.mp ((poolNumber_update_le hx).trans (h.stopped hstop).le)
  drained v hv := by
    by_cases hx : x = .exited
    · exact ⟨hexited hx, hcount.resolve_right fun hne => hne.2.2 hx⟩
    · exact h.drained v (update_ne_exited hx hv)

theorem reject (h : PoolInv s) (fd cmd : ℤ) :
    PoolInv { s with calls := s.calls + 1, rejected := s.rejected ++ [⟨fd, cmd, s.calls⟩] } where
  consistent := h.consistent
  fifo := h.fifo
  numbered job hjob := by
    rw [← List.append_assoc] at hjob
    rcases List.mem_append.mp hjob with hjob | hjob
    · exact Nat.lt_succ_of_lt (h.numbered job hjob)
    · rw [List.mem_singleton.mp hjob]
      exact Nat.lt_succ_self _
  ordered := h.ordered
  apart a ha r hr := by
    rcases List.mem_append.mp hr with hr | hr
    · exact h.apart a ha r hr
    · rw [List.mem_singleton.mp hr]
      exact (h.numbered a (List.mem_append_left _ ha)).ne
  inHand := h.inHand
  signalled := h.signalled
  stopped := h.stopped
  drained := h.drained

theorem accept (h : PoolInv s) (fd cmd : ℤ) {signalled : Fin n → Bool}
    (hstop : s.pool.stop = false) (hroom : s.pool.count < cap) (hsignals : s.Signals signalled) :
    PoolInv { s with
      pool := s.pool.push ⟨fd, cmd, s.calls⟩
      pc := s.wake signalled
      calls := s.calls + 1
      accepted := s.accepted ++ [⟨fd, cmd, s.calls⟩] } where
  consistent := (h.consistent.push hroom _).1
  fifo := by
    rw [(h.consistent.push hroom _).2, h.fifo, List.append_assoc]
  numbered job hjob := by
    rcases List.mem_append.mp hjob with hjob | hjob
    · rcases List.mem_append.mp hjob with hjob | hjob
      · exact Nat.lt_succ_of_lt (h.numbered job (List.mem_append_left _ hjob))
      · rw [List.mem_singleton.mp hjob]
        exact Nat.lt_succ_self _
    · exact Nat.lt_succ_of_lt (h.numbered job (List.mem_append_right _ hjob))
  ordered := by
    refine List.pairwise_append.mpr ⟨h.ordered, List.pairwise_singleton .., fun a ha b hb => ?_⟩
    rw [List.mem_singleton.mp hb]
    exact h.numbered a (List.mem_append_left _ ha)
  apart a ha r hr := by
    rcases List.mem_append.mp ha with ha | ha
    · exact h.apart a ha r hr
    · rw [List.mem_singleton.mp ha]
      exact (h.numbered r (List.mem_append_right _ hr)).ne'
  inHand job := (h.inHand job).trans (congrArg _ (poolTotal_wake rfl hsignals.1).symm)
  signalled hpos := by
    obtain ⟨hsum, hle, hlt⟩ := poolNumber_wake hsignals.1
    have hbefore := hpos.trans_le hle
    have hfewer := hlt (hsignals.2 (poolNumber_pos.mp hbefore))
    have hcount := h.signalled hbefore
    show s.pool.count + 1 ≤ poolNumber (s.wake signalled) .woken
    omega
  stopped hstopped := absurd (hstop.symm.trans hstopped) Bool.false_ne_true
  drained w hw := by
    have hw' := (wake_eq_iff hsignals.1 (x := .exited) (by rintro ⟨⟩) (by rintro ⟨⟩) w).mp hw
    exact absurd (hstop.symm.trans (h.drained w hw').1) Bool.false_ne_true

theorem take (h : PoolInv s) {w : Fin n} (hpc : s.pc w = .lock ∨ s.pc w = .woken)
    (hcount : 0 < s.pool.count) :
    PoolInv { s with
      pool := s.pool.pop
      pc := Function.update s.pc w (.call (s.pool.jobs s.pool.head))
      taken := s.taken ++ [s.pool.jobs s.pool.head] } where
  consistent := (h.consistent.pop hcount).1
  fifo := by
    show s.accepted = s.taken ++ [s.pool.jobs s.pool.head] ++ s.pool.pop.queue
    rw [h.fifo, (h.consistent.pop hcount).2, List.append_assoc]
    rfl
  numbered := h.numbered
  ordered := h.ordered
  apart := h.apart
  inHand job := by
    have hold : ∀ job, s.pc w ≠ .call job := by
      rintro job heq
      rw [heq] at hpc
      rcases hpc with hpc | hpc <;> cases hpc
    rw [List.count_append, List.count_singleton, h.inHand job]
    by_cases hjob : s.pool.jobs s.pool.head = job
    · subst hjob
      rw [beq_self_eq_true, if_pos rfl, Nat.add_assoc]
      exact congrArg _ (poolNumber_update_self (hold _)).symm
    · rw [if_neg (by simpa using hjob), Nat.add_zero]
      exact congrArg _ (poolNumber_update_of_ne (hold job) (by simpa using hjob)).symm
  signalled hpos := by
    have hbefore := hpos.trans_le (poolNumber_update_le PoolPc.noConfusion)
    have hwoken := h.signalled hbefore
    have hkeep : poolNumber s.pc .woken ≤ poolNumber (Function.update s.pc w
        (.call (s.pool.jobs s.pool.head))) .woken + 1 := poolNumber_le_update_add_one
    show s.pool.count - 1 ≤ poolNumber (Function.update s.pc w _) .woken
    omega
  stopped hstop :=
    Nat.le_zero.mp ((poolNumber_update_le PoolPc.noConfusion).trans (h.stopped hstop).le)
  drained v hv := by
    have hv' := h.drained v (update_ne_exited PoolPc.noConfusion hv)
    exact absurd hv'.2 hcount.ne'

theorem call (h : PoolInv s) {w : Fin n} {job : PoolJob} (hpc : s.pc w = .call job) :
    PoolInv { s with
      pc := Function.update s.pc w .handler
      handled := s.handled ++ [job] } where
  consistent := h.consistent
  fifo := h.fifo
  numbered := h.numbered
  ordered := h.ordered
  apart := h.apart
  inHand j := by
    refine (h.inHand j).trans ?_
    rw [List.count_append, List.count_singleton]
    by_cases hj : job = j
    · subst hj
      have hleave : poolNumber (Function.update s.pc w .handler) (.call job) + 1 =
          poolNumber s.pc (.call job) := poolNumber_update_add_one hpc PoolPc.noConfusion
      rw [beq_self_eq_true, if_pos rfl, ← hleave, Nat.add_assoc, Nat.add_comm 1]
    · have hne : s.pc w ≠ .call j := by simpa [hpc] using hj
      rw [if_neg (by simpa using hj), Nat.add_zero]
      exact congrArg _ (poolNumber_update_of_ne hne PoolPc.noConfusion).symm
  signalled hpos := by
    have hne : s.pc w ≠ .woken := by simp [hpc]
    have hbefore := hpos.trans_le (poolNumber_update_le PoolPc.noConfusion)
    exact (h.signalled hbefore).trans (le_poolNumber_update hne)
  stopped hstop :=
    Nat.le_zero.mp ((poolNumber_update_le PoolPc.noConfusion).trans (h.stopped hstop).le)
  drained v hv := h.drained v (update_ne_exited PoolPc.noConfusion hv)

theorem shutdown (h : PoolInv s) : PoolInv s.stopAll := by
  have hwaiting : ∀ w, decide (s.pc w = .waiting) = true → s.pc w = .waiting :=
    fun w hw => of_decide_eq_true hw
  have hnone : poolNumber (s.wake fun w => decide (s.pc w = .waiting)) .waiting = 0 := by
    refine poolNumber_eq_zero.mpr fun w hw => ?_
    unfold PoolRun.wake at hw
    split at hw
    case isTrue => cases hw
    case isFalse hne => exact hne (decide_eq_true hw)
  exact {
    consistent := ⟨h.consistent.head_lt, h.consistent.tail_eq, h.consistent.count_le⟩
    fifo := h.fifo
    numbered := h.numbered
    ordered := h.ordered
    apart := h.apart
    inHand := fun job => (h.inHand job).trans (congrArg _ (poolTotal_wake rfl hwaiting).symm)
    signalled := fun hpos => absurd hnone hpos.ne'
    stopped := fun _ => hnone
    drained := fun w hw =>
      ⟨rfl, (h.drained w ((wake_eq_iff hwaiting (x := .exited) nofun nofun w).mp hw)).2⟩ }

theorem step (h : PoolInv s) (ht : PoolTransition s e t) : PoolInv t := by
  cases ht with
  | reject fd cmd signalled => exact h.reject fd cmd
  | accept fd cmd signalled hstop hroom hsignals => exact h.accept fd cmd hstop hroom hsignals
  | wait w hpc hcount hstop =>
      refine h.setPc (fun job heq => ?_) (by rintro _ ⟨⟩) (fun _ => hstop) (by rintro ⟨⟩)
        (Or.inl hcount)
      rcases hpc with hpc | hpc <;> cases hpc.symm.trans heq
  | leave w hpc hcount hstop =>
      refine h.setPc (fun job heq => ?_) (by rintro _ ⟨⟩) (by rintro ⟨⟩) (fun _ => hstop)
        (Or.inl hcount)
      rcases hpc with hpc | hpc <;> cases hpc.symm.trans heq
  | take w hpc hcount => exact h.take hpc hcount
  | call w job hpc => exact h.call hpc
  | finish w hpc =>
      exact h.setPc (by simp [hpc]) (by rintro _ ⟨⟩) (by rintro ⟨⟩) (by rintro ⟨⟩)
        (Or.inr (by simp [hpc]))
  | spurious w hpc =>
      exact h.setPc (by simp [hpc]) (by rintro _ ⟨⟩) (by rintro ⟨⟩) (by rintro ⟨⟩)
        (Or.inr (by simp [hpc]))
  | shutdown => exact h.shutdown

end PoolInv

theorem poolInv_of_run (hcap : 0 < cap) {jobs : ℕ → PoolJob} {es : List (PoolEvent n)}
    {s : PoolRun n cap} (hrun : run poolStep (PoolRun.init n cap jobs) es = some s) : PoolInv s :=
  run_invariant (fun _ _ _ h hstep => h.step (poolTransition_of_step hstep)) (.init hcap jobs) hrun

end FiveGProxy
