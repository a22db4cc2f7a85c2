import FiveGProxy.Library.Steps
import Mathlib.Data.Set.Lattice

/-!
# Fair behaviours of a partial step function

A behaviour is an infinite sequence of states, each of which takes an action or stays as it is.
A set of actions stands for a party of the system. Weak fairness says that a party that can go on
does not wait for ever, strong fairness that it also goes on when it can do so again and again.
`WeakFair.leadsTo` and `StrongFair.leadsTo` turn fairness into progress.
-/

namespace Steps

variable {σ ι : Type*}

/-- An infinite run; `none` is a moment at which nothing happens. -/
structure Behaviour (step : Step σ ι) where
  state : ℕ → σ
  action : ℕ → Option ι
  next : ∀ n, (action n).elim (some (state n)) (step (state n)) = some (state (n + 1))

def Enabled (step : Step σ ι) (A : Set ι) (s : σ) : Prop := ∃ a ∈ A, (step s a).isSome = true

namespace Behaviour

variable {step : Step σ ι} (b : Behaviour step)

def Occurs (A : Set ι) (n : ℕ) : Prop := ∃ a ∈ A, b.action n = some a

def WeakFair (A : Set ι) : Prop := ∀ n, ∃ m, n ≤ m ∧ (b.Occurs A m ∨ ¬Enabled step A (b.state m))

def StrongFair (A : Set ι) : Prop :=
  ∀ n, (∀ k, n ≤ k → ∃ m, k ≤ m ∧ Enabled step A (b.state m)) → ∃ m, n ≤ m ∧ b.Occurs A m

/-- Whenever `P` holds, `Q` holds then or later. -/
def LeadsTo (P Q : σ → Prop) : Prop := ∀ n, P (b.state n) → ∃ m, n ≤ m ∧ Q (b.state m)

variable {b} {P Q R : σ → Prop}

theorem succ_cases (b : Behaviour step) (n : ℕ) :
    b.action n = none ∧ b.state (n + 1) = b.state n ∨
      ∃ a, b.action n = some a ∧ step (b.state n) a = some (b.state (n + 1)) := by
  have hnext := b.next n
  cases ha : b.action n with
  | none =>
      rw [ha] at hnext
      exact Or.inl ⟨rfl, (Option.some.inj hnext).symm⟩
  | some a =>
      rw [ha] at hnext
      exact Or.inr ⟨a, rfl, hnext⟩

theorem always (hstep : ∀ s a t, P s → step s a = some t → P t) (h : P (b.state 0)) (n : ℕ) :
    P (b.state n) := by
  induction n with
  | zero => exact h
  | succ n ih =>
      rcases b.succ_cases n with ⟨-, heq⟩ | ⟨a, -, ha⟩
      · rw [heq]
        exact ih
      · exact hstep _ a _ ih ha

theorem always_from {n : ℕ} (h : P (b.state n))
    (hstep : ∀ m, n ≤ m → ∀ a, b.action m = some a → P (b.state m) →
      step (b.state m) a = some (b.state (m + 1)) → P (b.state (m + 1))) :
    ∀ m, n ≤ m → P (b.state m) := by
  intro m hm
  induction m, hm using Nat.le_induction with
  | base => exact h
  | succ m hm ih =>
      rcases b.succ_cases m with ⟨-, heq⟩ | ⟨a, ha, hnext⟩
      · rw [heq]
        exact ih
      · exact hstep m hm a ha ih hnext

theorem LeadsTo.trans (h₁ : b.LeadsTo P Q) (h₂ : b.LeadsTo Q R) : b.LeadsTo P R := by
  intro n hn
  obtain ⟨m, hnm, hm⟩ := h₁ n hn
  obtain ⟨k, hmk, hk⟩ := h₂ m hm
  exact ⟨k, Nat.le_trans hnm hmk, hk⟩

/-- One of the ways of reaching `Q ∨ R` is already the goal. -/
theorem LeadsTo.trans_or (h₁ : b.LeadsTo P fun s => R s ∨ Q s) (h₂ : b.LeadsTo Q R) :
    b.LeadsTo P R := by
  intro n hn
  obtain ⟨m, hnm, hm | hm⟩ := h₁ n hn
  · exact ⟨m, hnm, hm⟩
  · obtain ⟨k, hmk, hk⟩ := h₂ m hm
    exact ⟨k, Nat.le_trans hnm hmk, hk⟩

/-- Until the party moves, the other steps keep `P` and the rank, or reach `Q`. -/
theorem keeps_until {I : σ → Prop} {f : σ → ℕ} (hinv : ∀ n, I (b.state n))
    (hstay : ∀ s a t, I s → P s → step s a = some t → Q t ∨ P t ∧ f t ≤ f s) {n : ℕ}
    (hn : P (b.state n)) (m : ℕ) (hm : n ≤ m) :
    (∃ k, n ≤ k ∧ Q (b.state k)) ∨ P (b.state m) ∧ f (b.state m) ≤ f (b.state n) := by
  induction m, hm using Nat.le_induction with
  | base => exact Or.inr ⟨hn, Nat.le_refl _⟩
  | succ m hm ih =>
      rcases ih with hreached | ⟨hP, hf⟩
      · exact Or.inl hreached
      · rcases b.succ_cases m with ⟨-, heq⟩ | ⟨a, -, hnext⟩
        · rw [heq]
          exact Or.inr ⟨hP, hf⟩
        · rcases hstay _ a _ (hinv m) hP hnext with hQ | ⟨hP', hf'⟩
          · exact Or.inl ⟨m + 1, Nat.le_succ_of_le hm, hQ⟩
          · exact Or.inr ⟨hP', Nat.le_trans hf' hf⟩

/-- A party that can go on as long as `P` holds, and lowers a rank with every step that does not
reach `Q`, reaches `Q`. -/
theorem WeakFair.leadsTo {A : Set ι} {I : σ → Prop} (f : σ → ℕ) (hfair : b.WeakFair A)
    (hinv : ∀ n, I (b.state n)) (henabled : ∀ s, I s → P s → Enabled step A s)
    (hstay : ∀ s a t, I s → P s → step s a = some t → Q t ∨ P t ∧ f t ≤ f s)
    (hmove : ∀ s a t, I s → P s → a ∈ A → step s a = some t → Q t ∨ f t < f s) :
    b.LeadsTo P Q := by
  intro n hn
  generalize hrank : f (b.state n) = k
  induction k using Nat.strongRecOn generalizing n with
  | ind k ih =>
      obtain ⟨m, hnm, hm⟩ := hfair n
      rcases keeps_until hinv hstay hn m hnm with hreached | ⟨hP, hf⟩
      · exact hreached
      · obtain ⟨a, haA, ha⟩ := hm.resolve_right fun hnot => hnot (henabled _ (hinv m) hP)
        have hnext : step (b.state m) a = some (b.state (m + 1)) := by
          have := b.next m
          rwa [ha] at this
        rcases hmove _ a _ (hinv m) hP haA hnext with hQ | hlt
        · exact ⟨m + 1, Nat.le_succ_of_le hnm, hQ⟩
        · rcases hstay _ a _ (hinv m) hP hnext with hQ | ⟨hP', -⟩
          · exact ⟨m + 1, Nat.le_succ_of_le hnm, hQ⟩
          · have hless : f (b.state (m + 1)) < k := hrank ▸ Nat.lt_of_lt_of_le hlt hf
            obtain ⟨l, hml, hl⟩ := ih _ hless (m + 1) hP' rfl
            exact ⟨l, Nat.le_trans (Nat.le_succ_of_le hnm) hml, hl⟩

/-- Parties that are treated fairly, and that the other steps do not stop, are together treated
fairly. -/
theorem WeakFair.iUnion {κ : Type*} {A : κ → Set ι} {I : σ → Prop} (hfair : ∀ k, b.WeakFair (A k))
    (hinv : ∀ n, I (b.state n)) (hkeep : ∀ s a t k, I s → Enabled step (A k) s → a ∉ ⋃ k, A k →
      step s a = some t → Enabled step (A k) t) : b.WeakFair (⋃ k, A k) := by
  intro n
  by_contra hnever
  push Not at hnever
  obtain ⟨a, ha, hon⟩ := (hnever n le_rfl).2
  obtain ⟨k, hk⟩ := Set.mem_iUnion.mp ha
  have hstays : ∀ m, n ≤ m → Enabled step (A k) (b.state m) := by
    refine always_from (P := Enabled step (A k)) ⟨a, hk, hon⟩ fun m hm c hc hen hst => ?_
    exact hkeep _ c _ k (hinv m) hen (fun hmem => (hnever m hm).1 ⟨c, hmem, hc⟩) hst
  obtain ⟨m, hm, hocc | hoff⟩ := hfair k n
  · obtain ⟨c, hc, hact⟩ := hocc
    exact (hnever m hm).1 ⟨c, Set.mem_iUnion.mpr ⟨k, hc⟩, hact⟩
  · exact hoff (hstays m hm)

/-- A party that can go on again and again while `P` holds, and lowers a rank with every step that does
not reach `Q`, reaches `Q`. -/
theorem StrongFair.leadsTo_of_rank {A : Set ι} {I : σ → Prop} (f : σ → ℕ) (hfair : b.StrongFair A)
    (hinv : ∀ n, I (b.state n)) (henabled : b.LeadsTo P fun s => Q s ∨ Enabled step A s)
    (hstay : ∀ s a t, I s → P s → step s a = some t → Q t ∨ P t ∧ f t ≤ f s)
    (hmove : ∀ s a t, I s → P s → a ∈ A → step s a = some t → Q t ∨ f t < f s) :
    b.LeadsTo P Q := by
  intro n hn
  generalize hrank : f (b.state n) = k
  induction k using Nat.strongRecOn generalizing n with
  | ind k ih =>
      by_contra hnever
      have hkeep : ∀ m, n ≤ m → P (b.state m) ∧ f (b.state m) ≤ f (b.state n) := fun m hm =>
        (keeps_until hinv hstay hn m hm).resolve_left hnever
      obtain ⟨m, hnm, a, haA, ha⟩ := hfair n fun k hk => by
        obtain ⟨m, hkm, hQ | hon⟩ := henabled k (hkeep k hk).1
        · exact absurd ⟨m, Nat.le_trans hk hkm, hQ⟩ hnever
        · exact ⟨m, hkm, hon⟩
      have hnext : step (b.state m) a = some (b.state (m + 1)) := by
        have := b.next m
        rwa [ha] at this
      have hnm' : n ≤ m + 1 := Nat.le_succ_of_le hnm
      rcases hmove _ a _ (hinv m) (hkeep m hnm).1 haA hnext with hQ | hlt
      · exact hnever ⟨m + 1, hnm', hQ⟩
      · have hless : f (b.state (m + 1)) < k := hrank ▸ Nat.lt_of_lt_of_le hlt (hkeep m hnm).2
        obtain ⟨l, hl, hQ⟩ := ih _ hless (m + 1) (hkeep _ hnm').1 rfl
        exact hnever ⟨l, Nat.le_trans hnm' hl, hQ⟩

/-- A party that can go on again and again while `P` holds, and each of whose steps reaches `Q`,
reaches `Q`. -/
theorem StrongFair.leadsTo {A : Set ι} {I : σ → Prop} (hfair : b.StrongFair A)
    (hinv : ∀ n, I (b.state n)) (henabled : b.LeadsTo P fun s => Q s ∨ Enabled step A s)
    (hstay : ∀ s a t, I s → P s → step s a = some t → Q t ∨ P t)
    (hmove : ∀ s a t, I s → P s → a ∈ A → step s a = some t → Q t) : b.LeadsTo P Q :=
  hfair.leadsTo_of_rank (fun _ => 0) hinv henabled
    (fun s a t hI hP hst => (hstay s a t hI hP hst).imp_right fun hPt => ⟨hPt, Nat.le_refl 0⟩)
    fun s a t hI hP ha hst => Or.inl (hmove s a t hI hP ha hst)

/-! ### Behaviours that end -/

variable {s t : σ} {as : List ι}

theorem run_take (h : run step s as = some t) (n : ℕ) : ∃ u, run step s (as.take n) = some u := by
  rw [← List.take_append_drop n as, run_append, Option.bind_eq_some_iff] at h
  obtain ⟨u, hu, -⟩ := h
  exact ⟨u, hu⟩

def ofRun (h : run step s as = some t) : Behaviour step where
  state n := (run step s (as.take n)).getD s
  action n := as[n]?
  next n := by
    obtain ⟨u, hu⟩ := run_take h n
    by_cases hn : n < as.length
    · obtain ⟨v, hv⟩ := run_take h (n + 1)
      rw [List.take_succ_eq_append_getElem hn] at hv ⊢
      have hstep : step u as[n] = some v := by
        rw [run_append, hu, Option.bind_some, run_cons_eq_some] at hv
        obtain ⟨x, hx, ⟨⟩⟩ := hv
        exact hx
      rw [hv, hu, List.getElem?_eq_getElem hn]
      exact hstep
    · rw [List.getElem?_eq_none (Nat.le_of_not_lt hn), List.take_of_length_le (Nat.le_of_not_lt hn),
        List.take_of_length_le (Nat.le_succ_of_le (Nat.le_of_not_lt hn)), h]
      rfl

theorem ofRun_state_last (h : run step s as = some t) {n : ℕ} (hn : as.length ≤ n) :
    (ofRun h).state n = t := by
  simp [ofRun, List.take_of_length_le hn, h]

theorem ofRun_weakFair (h : run step s as = some t) {A : Set ι} (hend : ¬Enabled step A t) :
    (ofRun h).WeakFair A := by
  intro n
  refine ⟨max n as.length, Nat.le_max_left _ _, Or.inr ?_⟩
  rw [ofRun_state_last h (Nat.le_max_right _ _)]
  exact hend

theorem ofRun_strongFair (h : run step s as = some t) {A : Set ι} (hend : ¬Enabled step A t) :
    (ofRun h).StrongFair A := by
  intro n hoften
  obtain ⟨m, hm, hon⟩ := hoften (max n as.length) (Nat.le_max_left _ _)
  rw [ofRun_state_last h (Nat.le_trans (Nat.le_max_right _ _) hm)] at hon
  exact absurd hon hend

/-! ### Behaviours that follow a schedule -/

/-- The states that come about when `a n` is taken at the time `n` if it can be. -/
def scheduled (step : Step σ ι) (a : ℕ → ι) (s : σ) : ℕ → σ
  | 0 => s
  | n + 1 => (step (scheduled step a s n) (a n)).getD (scheduled step a s n)

def follow (step : Step σ ι) (a : ℕ → ι) (s : σ) : Behaviour step where
  state := scheduled step a s
  action n := (step (scheduled step a s n) (a n)).map fun _ => a n
  next n := by
    cases h : step (scheduled step a s n) (a n) with
    | none => simp [scheduled, h]
    | some t => simp [scheduled, h]

theorem follow_state_length {c : ι} (hrun : run step s as = some t) :
    (follow step (fun n => as[n]?.getD c) s).state as.length = t := by
  have hprefix : ∀ n ≤ as.length,
      run step s (as.take n) = some (scheduled step (fun n => as[n]?.getD c) s n) := by
    intro n hn
    induction n with
    | zero => rfl
    | succ n ih =>
        have hlt : n < as.length := hn
        obtain ⟨u, hu⟩ := run_take hrun (n + 1)
        rw [List.take_succ_eq_append_getElem hlt] at hu ⊢
        rw [run_append, ih (Nat.le_of_succ_le hn), Option.bind_some] at hu ⊢
        obtain ⟨v, hv, ⟨⟩⟩ := run_cons_eq_some.mp hu
        have hnext : scheduled step (fun n => as[n]?.getD c) s (n + 1) = u := by
          simp [scheduled, List.getElem?_eq_getElem hlt, hv]
        rw [hu, hnext]
  have hend := hprefix as.length (Nat.le_refl _)
  rw [List.take_length, hrun] at hend
  exact (Option.some.inj hend).symm

theorem follow_strongFair {a : ℕ → ι} {c : ι} {N : ℕ} (h : ∀ n, N ≤ n → a n = c) :
    (follow step a s).StrongFair {c} := by
  intro n hoften
  obtain ⟨m, hm, x, hx, hon⟩ := hoften (max n N) (Nat.le_max_left _ _)
  cases hx
  have hnext : (step (scheduled step a s m) c).isSome = true := hon
  obtain ⟨t, ht⟩ := Option.isSome_iff_exists.mp hnext
  have ha := h m (Nat.le_trans (Nat.le_max_right _ _) hm)
  refine ⟨m, Nat.le_trans (Nat.le_max_left _ _) hm, c, rfl, ?_⟩
  show (step (scheduled step a s m) (a m)).map (fun _ => a m) = some c
  rw [ha, ht]
  rfl

end Behaviour

end Steps
