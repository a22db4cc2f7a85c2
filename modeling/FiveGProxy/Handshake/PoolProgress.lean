import FiveGProxy.Handshake.JobPool
import FiveGProxy.Library.Fair

/-!
# The handshake threads get on

A job that waits is taken out, and a job that was taken out is handed to the handler, when no worker
stands still for ever. A worker that waits while a job does is woken: a job that comes in wakes one
worker at least, and no worker starts to wait before the ring is empty.
-/

namespace FiveGProxy

open Steps

variable {n cap : ℕ}

/-! ### The parties -/

/-- The steps of one worker, without the wake-ups that it does not ask for. -/
def poolParty (w : Fin n) : Set (PoolEvent n) := {.turn w, .call w, .finish w}

def PoolPc.work : PoolPc → ℕ
  | lock => 1
  | waiting => 1
  | woken => 1
  | call _ => 3
  | handler => 2
  | exited => 0

section

variable {s t : PoolRun n cap} {e : PoolEvent n} {w : Fin n} {job : PoolJob}

theorem poolParty_enabled_iff :
    Enabled poolStep (poolParty w) s ↔ s.pc w ≠ .waiting ∧ s.pc w ≠ .exited := by
  constructor
  · rintro ⟨a, rfl | rfl | rfl, ha⟩ <;> obtain ⟨t, ht⟩ := Option.isSome_iff_exists.mp ha
    · cases poolTransition_of_step ht with
      | wait w hpc | leave w hpc | take w hpc => rcases hpc with hpc | hpc <;> simp [hpc]
    · cases poolTransition_of_step ht with
      | call w job hpc => simp [hpc]
    · cases poolTransition_of_step ht with
      | finish w hpc => simp [hpc]
  · rintro ⟨hwaiting, hexited⟩
    cases hpc : s.pc w with
    | waiting => exact absurd hpc hwaiting
    | exited => exact absurd hpc hexited
    | lock | woken =>
        refine ⟨.turn w, Or.inl rfl, ?_⟩
        simp only [poolStep, hpc, true_or, or_true, if_true]
        cases jobPoolTurn s.pool <;> rfl
    | call job => exact ⟨.call w, Or.inr (Or.inl rfl), by simp [poolStep, hpc]⟩
    | handler => exact ⟨.finish w, Or.inr (Or.inr rfl), by simp [poolStep, hpc]⟩

theorem poolParty_keeps (hen : Enabled poolStep (poolParty w) s)
    (he : e ∉ ⋃ v, poolParty v) (ht : PoolTransition s e t) :
    Enabled poolStep (poolParty w) t := by
  rw [poolParty_enabled_iff] at hen ⊢
  have hparty : ∀ v, e ∉ poolParty v := fun v hv => he (Set.mem_iUnion.mpr ⟨v, hv⟩)
  cases ht with
  | reject => exact hen
  | accept fd cmd signalled hstop hroom hsignals =>
      have hw : signalled w ≠ true := fun hw => hen.1 (hsignals.1 w hw)
      simpa [PoolRun.wake, hw] using hen
  | wait v | leave v | take v => exact absurd (Or.inl rfl) (hparty v)
  | call v => exact absurd (Or.inr (Or.inl rfl)) (hparty v)
  | finish v => exact absurd (Or.inr (Or.inr rfl)) (hparty v)
  | spurious v hpc =>
      have hwv : w ≠ v := by
        rintro rfl
        exact hen.1 hpc
      simpa [PoolRun.setPc, Function.update_of_ne hwv] using hen
  | shutdown => simpa [PoolRun.stopAll, PoolRun.wake, hen.1] using hen

theorem workers_enabled (h : PoolInv s) (v : Fin n) (hcount : 0 < s.pool.count) :
    Enabled poolStep (⋃ w, poolParty w) s := by
  by_contra hnone
  have hall : ∀ w, s.pc w = .waiting ∨ s.pc w = .exited := by
    intro w
    by_contra hw
    obtain ⟨a, ha, hon⟩ := poolParty_enabled_iff.mpr (not_or.mp hw)
    exact hnone ⟨a, Set.mem_iUnion.mpr ⟨w, ha⟩, hon⟩
  have hwaiting : ∀ w, s.pc w = .waiting := fun w =>
    (hall w).resolve_right fun hw => hcount.ne' (h.drained w hw).2
  have hwoken : poolNumber s.pc .woken = 0 := by
    refine poolNumber_eq_zero.mpr fun w hw => ?_
    cases (hwaiting w).symm.trans hw
  have hle := h.signalled (poolNumber_pos.mpr ⟨v, hwaiting v⟩)
  omega

/-- Every worker step brings a job that waits nearer to the front, or its worker nearer to the next
job. -/
def queueRank (job : PoolJob) (s : PoolRun n cap) : ℕ :=
  3 * s.pool.queue.idxOf job + poolTotal PoolPc.work s.pc

theorem queued_move (h : PoolInv s) (ht : PoolTransition s e t) (hjob : job ∈ s.pool.queue) :
    job ∈ t.taken ∨ job ∈ t.pool.queue ∧ queueRank job t ≤ queueRank job s ∧
      (e ∈ ⋃ w, poolParty w → queueRank job t < queueRank job s) := by
  have hcount : 0 < s.pool.count := by
    rw [← JobPool.length_queue]
    exact List.length_pos_of_mem hjob
  cases ht with
  | reject fd cmd signalled =>
      exact Or.inr ⟨hjob, le_rfl, by simp [poolParty]⟩
  | accept fd cmd signalled hstop hroom hsignals =>
      have hqueue := (h.consistent.push hroom ⟨fd, cmd, s.calls⟩).2
      have hrank : queueRank job { s with
          pool := s.pool.push ⟨fd, cmd, s.calls⟩
          pc := s.wake signalled
          calls := s.calls + 1
          accepted := s.accepted ++ [⟨fd, cmd, s.calls⟩] } = queueRank job s := by
        simp only [queueRank, hqueue, List.idxOf_append, if_pos hjob,
          poolTotal_wake (f := PoolPc.work) rfl hsignals.1]
      refine Or.inr ⟨?_, hrank.le, by simp [poolParty]⟩
      show job ∈ (s.pool.push ⟨fd, cmd, s.calls⟩).queue
      rw [hqueue]
      exact List.mem_append_left _ hjob
  | wait w hpc hzero => exact absurd hzero hcount.ne'
  | leave w hpc hzero => exact absurd hzero hcount.ne'
  | take w hpc =>
      have hqueue := (h.consistent.pop hcount).2
      rw [hqueue] at hjob
      rcases List.mem_cons.mp hjob with rfl | hrest
      · exact Or.inl (by simp)
      by_cases hfirst : s.pool.jobs s.pool.head = job
      · exact Or.inl (by simp [hfirst])
      have hwork := poolTotal_update PoolPc.work s.pc w (.call (s.pool.jobs s.pool.head))
      have hone : (s.pc w).work = 1 := by rcases hpc with hpc | hpc <;> rw [hpc] <;> rfl
      have hthree : (PoolPc.call (s.pool.jobs s.pool.head)).work = 3 := rfl
      have hidx : s.pool.queue.idxOf job = s.pool.pop.queue.idxOf job + 1 := by
        rw [hqueue, List.idxOf_cons_ne _ hfirst]
      have hlt : 3 * s.pool.pop.queue.idxOf job + poolTotal PoolPc.work (Function.update s.pc w
          (.call (s.pool.jobs s.pool.head))) <
            3 * s.pool.queue.idxOf job + poolTotal PoolPc.work s.pc := by
        omega
      exact Or.inr ⟨hrest, hlt.le, fun _ => hlt⟩
  | call w j hpc =>
      have hwork := poolTotal_update PoolPc.work s.pc w .handler
      rw [hpc] at hwork
      have hlt : poolTotal PoolPc.work (Function.update s.pc w .handler) <
          poolTotal PoolPc.work s.pc := by
        simp only [PoolPc.work] at hwork
        omega
      exact Or.inr ⟨hjob, Nat.add_le_add_left hlt.le _, fun _ => Nat.add_lt_add_left hlt _⟩
  | finish w hpc =>
      have hwork := poolTotal_update PoolPc.work s.pc w .lock
      rw [hpc] at hwork
      have hlt : poolTotal PoolPc.work (Function.update s.pc w .lock) <
          poolTotal PoolPc.work s.pc := by
        simp only [PoolPc.work] at hwork
        omega
      exact Or.inr ⟨hjob, Nat.add_le_add_left hlt.le _, fun _ => Nat.add_lt_add_left hlt _⟩
  | spurious w hpc =>
      have hwork := poolTotal_update PoolPc.work s.pc w .woken
      rw [hpc] at hwork
      have heq : poolTotal PoolPc.work (Function.update s.pc w .woken) =
          poolTotal PoolPc.work s.pc := Nat.add_right_cancel hwork
      exact Or.inr ⟨hjob, (congrArg _ heq).le, by simp [poolParty]⟩
  | shutdown =>
      have heq : poolTotal PoolPc.work s.stopAll.pc = poolTotal PoolPc.work s.pc :=
        poolTotal_wake rfl fun w hw => of_decide_eq_true hw
      exact Or.inr ⟨hjob, (congrArg _ heq).le, by simp [poolParty]⟩

/-- Every worker step lowers this as long as some worker waits in vain: a job that comes in wakes one
of them. -/
def waitRank (s : PoolRun n cap) : ℕ :=
  4 * poolNumber s.pc .waiting + 3 * s.pool.count + poolTotal PoolPc.work s.pc

theorem waiting_move (ht : PoolTransition s e t) (hw : s.pc w = .waiting)
    (hcount : 0 < s.pool.count) :
    t.pc w ≠ .waiting ∨ waitRank t ≤ waitRank s ∧
      (e ∈ ⋃ w, poolParty w → waitRank t < waitRank s) := by
  cases ht with
  | reject fd cmd signalled => exact Or.inr ⟨le_rfl, by simp [poolParty]⟩
  | accept fd cmd signalled hstop hroom hsignals =>
      have hfewer := (poolNumber_wake hsignals.1).2.2 (hsignals.2 ⟨w, hw⟩)
      have hwork : poolTotal PoolPc.work (s.wake signalled) = poolTotal PoolPc.work s.pc :=
        poolTotal_wake rfl hsignals.1
      refine Or.inr ⟨?_, by simp [poolParty]⟩
      show 4 * poolNumber (s.wake signalled) .waiting + 3 * (s.pool.count + 1) +
        poolTotal PoolPc.work (s.wake signalled) ≤ waitRank s
      unfold waitRank
      omega
  | wait v hpc hzero => exact absurd hzero hcount.ne'
  | leave v hpc hzero => exact absurd hzero hcount.ne'
  | take v hpc =>
      have hfewer : poolNumber (Function.update s.pc v (.call (s.pool.jobs s.pool.head))) .waiting ≤
          poolNumber s.pc .waiting := poolNumber_update_le PoolPc.noConfusion
      have hwork := poolTotal_update PoolPc.work s.pc v (.call (s.pool.jobs s.pool.head))
      have hone : (s.pc v).work = 1 := by rcases hpc with hpc | hpc <;> rw [hpc] <;> rfl
      have hthree : (PoolPc.call (s.pool.jobs s.pool.head)).work = 3 := rfl
      have hlt : 4 * poolNumber (Function.update s.pc v (.call (s.pool.jobs s.pool.head))) .waiting +
          3 * (s.pool.count - 1) + poolTotal PoolPc.work (Function.update s.pc v
            (.call (s.pool.jobs s.pool.head))) < waitRank s := by
        unfold waitRank
        omega
      exact Or.inr ⟨hlt.le, fun _ => hlt⟩
  | call v j hpc =>
      have hfewer : poolNumber (Function.update s.pc v .handler) .waiting ≤
          poolNumber s.pc .waiting := poolNumber_update_le PoolPc.noConfusion
      have hwork := poolTotal_update PoolPc.work s.pc v .handler
      rw [hpc] at hwork
      simp only [PoolPc.work] at hwork
      have hlt : 4 * poolNumber (Function.update s.pc v .handler) .waiting + 3 * s.pool.count +
          poolTotal PoolPc.work (Function.update s.pc v .handler) < waitRank s := by
        unfold waitRank
        omega
      exact Or.inr ⟨hlt.le, fun _ => hlt⟩
  | finish v hpc =>
      have hfewer : poolNumber (Function.update s.pc v .lock) .waiting ≤
          poolNumber s.pc .waiting := poolNumber_update_le PoolPc.noConfusion
      have hwork := poolTotal_update PoolPc.work s.pc v .lock
      rw [hpc] at hwork
      simp only [PoolPc.work] at hwork
      have hlt : 4 * poolNumber (Function.update s.pc v .lock) .waiting + 3 * s.pool.count +
          poolTotal PoolPc.work (Function.update s.pc v .lock) < waitRank s := by
        unfold waitRank
        omega
      exact Or.inr ⟨hlt.le, fun _ => hlt⟩
  | spurious v hpc =>
      have hfewer : poolNumber (Function.update s.pc v .woken) .waiting ≤
          poolNumber s.pc .waiting := poolNumber_update_le PoolPc.noConfusion
      have hwork := poolTotal_update PoolPc.work s.pc v .woken
      rw [hpc] at hwork
      simp only [PoolPc.work] at hwork
      refine Or.inr ⟨?_, by simp [poolParty]⟩
      show 4 * poolNumber (Function.update s.pc v .woken) .waiting + 3 * s.pool.count +
        poolTotal PoolPc.work (Function.update s.pc v .woken) ≤ waitRank s
      unfold waitRank
      omega
  | shutdown => exact Or.inl (by simp [PoolRun.stopAll, PoolRun.wake, hw])

/-- A worker that is about to call the handler stays there until it does. -/
theorem call_move (ht : PoolTransition s e t) (hw : s.pc w = .call job) :
    job ∈ t.handled ∨ t.pc w = .call job ∧ e ∉ poolParty w := by
  have hother : ∀ v x, s.pc v ≠ .call job → Function.update s.pc v x w = .call job := by
    intro v x hv
    have hne : w ≠ v := by
      rintro rfl
      exact hv hw
    rw [Function.update_of_ne hne, hw]
  cases ht with
  | reject => exact Or.inr ⟨hw, by simp [poolParty]⟩
  | accept fd cmd signalled hstop hroom hsignals =>
      exact Or.inr ⟨(wake_eq_iff hsignals.1 PoolPc.noConfusion PoolPc.noConfusion w).mpr hw,
        by simp [poolParty]⟩
  | wait v hpc | leave v hpc | take v hpc =>
      have hv : s.pc v ≠ .call job := by rcases hpc with hpc | hpc <;> simp [hpc]
      refine Or.inr ⟨hother v _ hv, ?_⟩
      rintro (heq | heq | heq) <;> cases heq
      exact hv hw
  | call v j hpc =>
      by_cases hv : v = w
      · subst hv
        cases hpc.symm.trans hw
        exact Or.inl (by simp)
      · refine Or.inr ⟨?_, ?_⟩
        · exact (Function.update_of_ne (Ne.symm hv) ..).trans hw
        · rintro (heq | heq | heq) <;> cases heq
          exact hv rfl
  | finish v hpc =>
      have hv : s.pc v ≠ .call job := by simp [hpc]
      refine Or.inr ⟨hother v _ hv, ?_⟩
      rintro (heq | heq | heq) <;> cases heq
      exact hv hw
  | spurious v hpc =>
      exact Or.inr ⟨hother v _ (by simp [hpc]), by simp [poolParty]⟩
  | shutdown =>
      exact Or.inr ⟨(wake_eq_iff (fun w hw => of_decide_eq_true hw) PoolPc.noConfusion
        PoolPc.noConfusion w).mpr hw, by simp [poolParty]⟩

end

section

variable {b : Behaviour (@poolStep n cap)}

theorem poolInv_always (h : PoolInv (b.state 0)) (m : ℕ) : PoolInv (b.state m) :=
  b.always (fun _ _ _ h hstep => h.step (poolTransition_of_step hstep)) h m

theorem workers_weakFair (hinv : ∀ m, PoolInv (b.state m)) (hfair : ∀ w, b.WeakFair (poolParty w)) :
    b.WeakFair (⋃ w, poolParty w) :=
  .iUnion hfair hinv fun _ _ _ _ _ hen he hstep =>
    poolParty_keeps hen he (poolTransition_of_step hstep)

theorem queued_leadsTo (hinv : ∀ m, PoolInv (b.state m)) (hfair : ∀ w, b.WeakFair (poolParty w))
    (v : Fin n) (job : PoolJob) :
    b.LeadsTo (fun s => job ∈ s.pool.queue) fun s => job ∈ s.taken := by
  refine (workers_weakFair hinv hfair).leadsTo (queueRank job) hinv (fun s h hjob => ?_)
    (fun s a t h hjob hst => ?_) fun s a t h hjob ha hst => ?_
  · refine workers_enabled h v ?_
    rw [← JobPool.length_queue]
    exact List.length_pos_of_mem hjob
  · exact (queued_move h (poolTransition_of_step hst) hjob).imp_right fun ⟨ht, hle, _⟩ => ⟨ht, hle⟩
  · exact (queued_move h (poolTransition_of_step hst) hjob).imp_right fun ⟨_, _, hlt⟩ => hlt ha

theorem call_leadsTo (hinv : ∀ m, PoolInv (b.state m)) {w : Fin n} (hfair : b.WeakFair (poolParty w))
    (job : PoolJob) : b.LeadsTo (fun s => s.pc w = .call job) fun s => job ∈ s.handled := by
  refine hfair.leadsTo (fun _ => 0) hinv (fun s _ hw => ?_) (fun s a t _ hw hst => ?_)
    fun s a t _ hw ha hst => ?_
  · exact poolParty_enabled_iff.mpr (by simp [hw])
  · exact (call_move (poolTransition_of_step hst) hw).imp_right fun h => ⟨h.1, le_rfl⟩
  · exact Or.inl ((call_move (poolTransition_of_step hst) hw).resolve_right fun h => h.2 ha)

theorem PoolInv.mem_taken {s : PoolRun n cap} (h : PoolInv s) {job : PoolJob} (hjob : job ∈ s.taken) :
    job ∈ s.handled ∨ ∃ w, s.pc w = .call job := by
  have hpos := List.count_pos_iff.mpr hjob
  rw [h.inHand job] at hpos
  rcases Nat.eq_zero_or_pos (s.handled.count job) with hzero | hhandled
  · rw [hzero, Nat.zero_add] at hpos
    exact Or.inr (poolNumber_pos.mp hpos)
  · exact Or.inl (List.count_pos_iff.mp hhandled)

theorem accepted_leadsTo (hinv : ∀ m, PoolInv (b.state m)) (hfair : ∀ w, b.WeakFair (poolParty w))
    (v : Fin n) (job : PoolJob) :
    b.LeadsTo (fun s => job ∈ s.accepted) fun s => job ∈ s.handled := by
  have htaken : b.LeadsTo (fun s => job ∈ s.taken) fun s => job ∈ s.handled := by
    intro m hm
    rcases (hinv m).mem_taken hm with hhandled | ⟨w, hw⟩
    · exact ⟨m, le_rfl, hhandled⟩
    · exact call_leadsTo hinv (hfair w) job m hw
  intro m hm
  rw [(hinv m).fifo] at hm
  rcases List.mem_append.mp hm with hm | hm
  · exact htaken m hm
  · exact (queued_leadsTo hinv hfair v job).trans htaken m hm

theorem waiting_leadsTo (hinv : ∀ m, PoolInv (b.state m)) (hfair : ∀ w, b.WeakFair (poolParty w))
    (w : Fin n) : b.LeadsTo (fun s => s.pc w = .waiting)
      fun s => s.pc w ≠ .waiting ∨ s.pool.count = 0 ∧ s.pool.stop = false := by
  have hidle : ∀ s : PoolRun n cap, PoolInv s → s.pc w = .waiting → s.pool.stop = false := by
    intro s h hw
    refine Bool.eq_false_iff.mpr fun hstop => ?_
    exact poolNumber_eq_zero.mp (h.stopped hstop) w hw
  have hwaits : b.LeadsTo (fun s => s.pc w = .waiting ∧ 0 < s.pool.count)
      fun s => s.pc w ≠ .waiting ∨ s.pool.count = 0 ∧ s.pool.stop = false := by
    have hmoves : ∀ (s : PoolRun n cap) a t, PoolInv s → s.pc w = .waiting ∧ 0 < s.pool.count →
        poolStep s a = some t → (t.pc w ≠ .waiting ∨ t.pool.count = 0 ∧ t.pool.stop = false) ∨
          (t.pc w = .waiting ∧ 0 < t.pool.count) ∧ waitRank t ≤ waitRank s ∧
            (a ∈ ⋃ w, poolParty w → waitRank t < waitRank s) := by
      intro s a t h hw hst
      have ht := poolTransition_of_step hst
      by_cases hstill : t.pc w = .waiting
      case neg => exact Or.inl (Or.inl hstill)
      rcases Nat.eq_zero_or_pos t.pool.count with hzero | hpos
      · exact Or.inl (Or.inr ⟨hzero, hidle t (h.step ht) hstill⟩)
      · exact Or.inr ⟨⟨hstill, hpos⟩,
          (waiting_move ht hw.1 hw.2).resolve_left fun hne => hne hstill⟩
    refine (workers_weakFair hinv hfair).leadsTo waitRank hinv (fun s h hw => ?_)
      (fun s a t h hw hst => ?_) fun s a t h hw ha hst => ?_
    · exact workers_enabled h w hw.2
    · exact (hmoves s a t h hw hst).imp_right fun ⟨ht, hle, _⟩ => ⟨ht, hle⟩
    · exact (hmoves s a t h hw hst).imp_right fun ⟨_, _, hlt⟩ => hlt ha
  intro m hm
  rcases Nat.eq_zero_or_pos (b.state m).pool.count with hzero | hpos
  · exact ⟨m, le_rfl, Or.inr ⟨hzero, hidle _ (hinv m) hm⟩⟩
  · exact hwaits m ⟨hm, hpos⟩

end

/-! ### What the pool guarantees -/

/-- What holds in every state of the pool. -/
structure PoolSafe (s : PoolRun n cap) : Prop where
  consistent : s.pool.Consistent
  /-- The jobs were taken in the order in which they were accepted. -/
  fifo : s.accepted = s.taken ++ s.pool.queue
  once : s.handled.Nodup
  handled_accepted : ∀ job ∈ s.handled, job ∈ s.accepted
  rejected_unhandled : ∀ job ∈ s.rejected, job ∉ s.handled
  stopped : s.pool.stop = true → ∀ w, s.pc w ≠ .waiting
  /-- When `pthread_join` has returned for all workers, nothing is left. -/
  joined : 0 < n → (∀ w, s.pc w = .exited) → ∀ job ∈ s.accepted, job ∈ s.handled

theorem PoolInv.safe {s : PoolRun n cap} (h : PoolInv s) : PoolSafe s := by
  have hhandled : ∀ job ∈ s.handled, job ∈ s.accepted := by
    intro job hjob
    have hpos := List.count_pos_iff.mpr hjob
    have htaken : job ∈ s.taken := by
      rw [← List.count_pos_iff, h.inHand job]
      exact Nat.add_pos_left hpos _
    rw [h.fifo]
    exact List.mem_append_left _ htaken
  have htaken : s.taken.Nodup := by
    have hnodup : s.accepted.Nodup := h.ordered.imp fun hlt heq => hlt.ne (congrArg _ heq)
    rw [h.fifo] at hnodup
    exact hnodup.of_append_left
  exact {
    consistent := h.consistent
    fifo := h.fifo
    once := by
      rw [List.nodup_iff_count_le_one] at htaken ⊢
      intro job
      have hle := htaken job
      rw [h.inHand job] at hle
      exact (Nat.le_add_right ..).trans hle
    handled_accepted := hhandled
    rejected_unhandled := fun job hrejected hjob => h.apart job (hhandled job hjob) job hrejected rfl
    stopped := fun hstop => poolNumber_eq_zero.mp (h.stopped hstop)
    joined := by
      intro hn hexited job hjob
      have hempty : s.pool.queue = [] := by
        rw [← List.length_eq_zero_iff, JobPool.length_queue]
        exact (h.drained ⟨0, hn⟩ (hexited _)).2
      rw [h.fifo, hempty, List.append_nil] at hjob
      refine (h.mem_taken hjob).resolve_right ?_
      rintro ⟨w, hw⟩
      cases (hexited w).symm.trans hw }

/-- In every interleaving of `job_pool_enqueue`, the workers and `job_pool_shutdown`, the pool is
safe; and when no worker stands still for ever, every job that was accepted is handed to the handler,
and no worker waits for ever while a job waits or `stop` is set. -/
theorem handshake_pool (hcap : 0 < cap) (jobs : ℕ → PoolJob) :
    (∀ (es : List (PoolEvent n)) (s : PoolRun n cap),
      run poolStep (PoolRun.init n cap jobs) es = some s → PoolSafe s) ∧
    ∀ b : Behaviour (@poolStep n cap), b.state 0 = PoolRun.init n cap jobs →
      (∀ w, b.WeakFair (poolParty w)) →
        (0 < n → ∀ job, b.LeadsTo (fun s => job ∈ s.accepted) fun s => job ∈ s.handled) ∧
        ∀ w, b.LeadsTo (fun s => s.pc w = .waiting)
          fun s => s.pc w ≠ .waiting ∨ s.pool.count = 0 ∧ s.pool.stop = false := by
  refine ⟨fun es s hrun => (poolInv_of_run hcap hrun).safe, fun b hstart hfair => ?_⟩
  have hinv : ∀ m, PoolInv (b.state m) := fun m => by
    refine poolInv_always ?_ m
    rw [hstart]
    exact .init hcap jobs
  exact ⟨fun hn job => accepted_leadsTo hinv hfair ⟨0, hn⟩ job, waiting_leadsTo hinv hfair⟩

/-- Two workers wait, a third job finds the ring of two full, and the one after it goes into the place
that the first has left; then all workers leave. -/
def wrapAround : List (PoolEvent 2) :=
  [.turn 0, .turn 1, .enqueue 7 0 fun w => decide (w = 0), .enqueue 8 0 fun w => decide (w = 1),
    .enqueue 9 1 fun _ => false, .turn 0, .enqueue 10 1 fun _ => false, .turn 1, .call 0, .finish 0,
    .turn 0, .call 1, .call 0, .finish 0, .finish 1, .turn 1, .shutdown, .turn 0, .turn 1]

/-- The safety of `wrapAround`, and the progress of the behaviour that stays in its last state: the
job that comes in while the ring is full of others is handed over, and worker `1` is woken. -/
theorem handshake_pool_wrapAround :
    (∃ s, run poolStep (PoolRun.init 2 2 fun _ => ⟨0, 0, 0⟩) wrapAround = some s ∧ PoolSafe s ∧
      s.handled = [⟨7, 0, 0⟩, ⟨8, 0, 1⟩, ⟨10, 1, 3⟩] ∧ s.rejected = [⟨9, 1, 2⟩]) ∧
    ∃ b : Behaviour (@poolStep 2 2), b.state 0 = PoolRun.init 2 2 (fun _ => ⟨0, 0, 0⟩) ∧
      (∃ m, 7 ≤ m ∧ ⟨10, 1, 3⟩ ∈ (b.state m).handled) ∧
      ∃ m, 2 ≤ m ∧ ((b.state m).pc 1 ≠ .waiting ∨
        (b.state m).pool.count = 0 ∧ (b.state m).pool.stop = false) := by
  obtain ⟨s, hrun, hhandled, hrejected, hexited⟩ := exists_run_of_any (by decide +kernel :
    (run poolStep (PoolRun.init 2 2 fun _ => ⟨0, 0, 0⟩) wrapAround).any (fun s => decide
      (s.handled = [⟨7, 0, 0⟩, ⟨8, 0, 1⟩, ⟨10, 1, 3⟩] ∧ s.rejected = [⟨9, 1, 2⟩] ∧
        ∀ w, s.pc w = .exited)) = true)
  have hpool := @handshake_pool 2 2 (by decide) fun _ => ⟨0, 0, 0⟩
  refine ⟨⟨s, hrun, hpool.1 _ s hrun, hhandled, hrejected⟩, Behaviour.ofRun hrun, rfl, ?_⟩
  have hfair : ∀ w, (Behaviour.ofRun hrun).WeakFair (poolParty w) := fun w =>
    Behaviour.ofRun_weakFair hrun fun hen => (poolParty_enabled_iff.mp hen).2 (hexited w)
  obtain ⟨hjobs, hwoken⟩ := hpool.2 (Behaviour.ofRun hrun) rfl hfair
  have haccepted : ⟨10, 1, 3⟩ ∈ ((run poolStep (PoolRun.init 2 2 fun _ => ⟨0, 0, 0⟩)
      (wrapAround.take 7)).getD (PoolRun.init 2 2 fun _ => ⟨0, 0, 0⟩)).accepted := by
    decide +kernel
  have hwaiting : ((run poolStep (PoolRun.init 2 2 fun _ => ⟨0, 0, 0⟩)
      (wrapAround.take 2)).getD (PoolRun.init 2 2 fun _ => ⟨0, 0, 0⟩)).pc 1 = .waiting := by
    decide +kernel
  exact ⟨hjobs (by decide) ⟨10, 1, 3⟩ 7 haccepted, hwoken 1 2 hwaiting⟩

end FiveGProxy
