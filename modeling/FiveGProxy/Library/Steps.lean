import Mathlib.Logic.Basic
import Mathlib.Data.Option.Basic
import Mathlib.Data.Nat.Notation

/-!
# Runs of a partial step function

A system is given by a step function `step s a : Option σ`, where `none` says that the action
`a` is not enabled in the state `s`. Every interleaving of its parties is a list of actions,
so a property of all interleavings is a property of all lists. `run_invariant` packages the
induction once; `Meets` restricts the runs to those whose actions are all taken in a state
that meets a condition, and `run_invariant_of_meets` is the same induction for them.
-/

namespace Steps

/-- A partial step function; `none` when the action is not enabled. -/
abbrev Step (σ ι : Type*) := σ → ι → Option σ

variable {σ ι : Type*}

/-- Takes the actions of the list in order, and fails when one of them is not enabled. -/
def run (step : Step σ ι) : σ → List ι → Option σ
  | s, [] => some s
  | s, a :: as => (step s a).bind fun t => run step t as

@[simp] theorem run_nil (step : Step σ ι) (s : σ) : run step s [] = some s := rfl

theorem run_cons (step : Step σ ι) (s : σ) (a : ι) (as : List ι) :
    run step s (a :: as) = (step s a).bind fun t => run step t as := rfl

theorem run_cons_eq {step : Step σ ι} {s t : σ} {a : ι} (h : step s a = some t) (as : List ι) :
    run step s (a :: as) = run step t as := by
  rw [run_cons, h]
  rfl

theorem run_cons_eq_some {step : Step σ ι} {s t : σ} {a : ι} {as : List ι} :
    run step s (a :: as) = some t ↔
      ∃ u, step s a = some u ∧ run step u as = some t := by
  rw [run_cons, Option.bind_eq_some_iff]

theorem run_append (step : Step σ ι) (s : σ) (as bs : List ι) :
    run step s (as ++ bs) = (run step s as).bind fun t => run step t bs := by
  induction as generalizing s with
  | nil => rfl
  | cons a as ih =>
      rw [List.cons_append, run_cons, run_cons]
      cases step s a with
      | none => rfl
      | some t => exact ih t

theorem run_append_of_eq {step : Step σ ι} {s t u : σ} {as bs : List ι}
    (h₁ : run step s as = some t) (h₂ : run step t bs = some u) :
    run step s (as ++ bs) = some u := by
  rw [run_append, h₁]
  exact h₂

theorem exists_run_of_any {step : Step σ ι} {s : σ} {as : List ι} {P : σ → Prop}
    [DecidablePred P] (h : (run step s as).any (fun t => decide (P t)) = true) :
    ∃ t, run step s as = some t ∧ P t := by
  cases hrun : run step s as with
  | none =>
      rw [hrun] at h
      cases h
  | some t =>
      rw [hrun] at h
      exact ⟨t, rfl, of_decide_eq_true h⟩

def Reaches (step : Step σ ι) (s t : σ) : Prop := ∃ as, run step s as = some t

theorem Reaches.refl {step : Step σ ι} (s : σ) : Reaches step s s := ⟨[], rfl⟩

theorem Reaches.single {step : Step σ ι} {s t : σ} {a : ι} (h : step s a = some t) :
    Reaches step s t := ⟨[a], by rw [run_cons, h]; rfl⟩

theorem Reaches.trans {step : Step σ ι} {s t u : σ} (h₁ : Reaches step s t)
    (h₂ : Reaches step t u) : Reaches step s u := by
  obtain ⟨as, has⟩ := h₁
  obtain ⟨bs, hbs⟩ := h₂
  exact ⟨as ++ bs, run_append_of_eq has hbs⟩

/-- A system whose steps are all made by another one reaches nothing else. -/
theorem Reaches.map {τ κ : Type*} {step : Step σ ι} {step' : Step τ κ} (f : σ → τ)
    (h : ∀ s a t, step s a = some t → ∃ b, step' (f s) b = some (f t)) {s t : σ}
    (hreach : Reaches step s t) : Reaches step' (f s) (f t) := by
  obtain ⟨as, hrun⟩ := hreach
  induction as generalizing s with
  | nil =>
      cases hrun
      exact .refl _
  | cons a as ih =>
      obtain ⟨u, hu, hrest⟩ := run_cons_eq_some.mp hrun
      obtain ⟨b, hb⟩ := h s a u hu
      exact (Reaches.single hb).trans (ih hrest)

/-- `n` rounds, each of which leads from the states of `I i` to those of `I (i + 1)`. -/
theorem Reaches.iterate {step : Step σ ι} {I : ℕ → σ → Prop} {n : ℕ}
    (hround : ∀ i < n, ∀ s, I i s → ∃ t, Reaches step s t ∧ I (i + 1) t) {s : σ} (hs : I 0 s) :
    ∃ t, Reaches step s t ∧ I n t := by
  induction n with
  | zero => exact ⟨s, .refl s, hs⟩
  | succ n ih =>
      obtain ⟨u, hu, hmid⟩ := ih fun i hi => hround i (Nat.lt_succ_of_lt hi)
      obtain ⟨t, ht, hend⟩ := hround n (Nat.lt_succ_self n) u hmid
      exact ⟨t, hu.trans ht, hend⟩

theorem run_invariant {step : Step σ ι} {P : σ → Prop}
    (hstep : ∀ s a t, P s → step s a = some t → P t) {s t : σ} {as : List ι}
    (hs : P s) (hrun : run step s as = some t) : P t := by
  induction as generalizing s with
  | nil =>
      cases hrun
      exact hs
  | cons a as ih =>
      obtain ⟨u, hu, hrest⟩ := run_cons_eq_some.mp hrun
      exact ih (hstep s a u hs hu) hrest

/-- The invariant rule for what a state has to do with the actions taken so far. -/
theorem trace_invariant {step : Step σ ι} {P : List ι → σ → Prop}
    (hstep : ∀ as s a t, P as s → step s a = some t → P (as ++ [a]) t) {s t : σ} {as : List ι}
    (hs : P [] s) (hrun : run step s as = some t) : P as t := by
  have hfrom : ∀ (as bs : List ι) (s : σ), P bs s → run step s as = some t → P (bs ++ as) t := by
    intro as
    induction as with
    | nil =>
        intro bs s hs hrun
        cases hrun
        rwa [List.append_nil]
    | cons a as ih =>
        intro bs s hs hrun
        obtain ⟨u, hu, hrest⟩ := run_cons_eq_some.mp hrun
        rw [List.append_cons]
        exact ih (bs ++ [a]) u (hstep bs s a u hs hu) hrest
  exact hfrom as [] s hs hrun

/-- However the actions of `C` are taken, they can be gone on with until `P` holds, and it will. -/
inductive Inevitable (step : Step σ ι) (C : ι → Prop) (P : σ → Prop) : σ → Prop
  | now {s : σ} (h : P s) : Inevitable step C P s
  | later {s : σ} (hgo : ∃ a t, C a ∧ step s a = some t)
      (hnext : ∀ a t, C a → step s a = some t → Inevitable step C P t) : Inevitable step C P s

theorem Inevitable.mono {step : Step σ ι} {C : ι → Prop} {P Q : σ → Prop} {s : σ}
    (h : Inevitable step C P s) (hPQ : ∀ t, P t → Q t) : Inevitable step C Q s := by
  induction h with
  | now hP => exact .now (hPQ _ hP)
  | later hgo _ ih => exact .later hgo ih

/-- Steps that are enabled until `P` holds and lower a measure lead to `P`. -/
theorem Inevitable.of_measure {step : Step σ ι} {C : ι → Prop} {P I : σ → Prop} (m : σ → ℕ)
    (hgo : ∀ s, I s → P s ∨ ∃ a t, C a ∧ step s a = some t)
    (hstep : ∀ s a t, I s → C a → step s a = some t → I t ∧ m t < m s) {s : σ} (hs : I s) :
    Inevitable step C P s := by
  induction hm : m s using Nat.strongRecOn generalizing s with
  | ind n ih =>
      rcases hgo s hs with hP | hgo
      · exact .now hP
      · refine .later hgo fun a t ha ht => ?_
        obtain ⟨hI, hlt⟩ := hstep s a t hs ha ht
        exact ih (m t) (hm ▸ hlt) hI rfl

/-- Every action of the run is taken in a state that meets the condition `C`. -/
def Meets (step : Step σ ι) (C : σ → ι → Prop) : σ → List ι → Prop
  | _, [] => True
  | s, a :: as => C s a ∧
      match step s a with
      | none => True
      | some t => Meets step C t as

/-- Whether a concrete run meets a decidable condition can be computed. -/
instance Meets.decidable (step : Step σ ι) (C : σ → ι → Prop)
    [∀ s a, Decidable (C s a)] : ∀ s as, Decidable (Meets step C s as)
  | _, [] => inferInstanceAs (Decidable True)
  | s, a :: as =>
      match h : step s a with
      | none => decidable_of_iff (C s a) (by simp [Meets, h])
      | some t =>
          haveI := Meets.decidable step C t as
          decidable_of_iff (C s a ∧ Meets step C t as) (by simp [Meets, h])

theorem Meets.head {step : Step σ ι} {C : σ → ι → Prop} {s : σ} {a : ι} {as : List ι}
    (h : Meets step C s (a :: as)) : C s a := h.1

theorem Meets.tail {step : Step σ ι} {C : σ → ι → Prop} {s t : σ} {a : ι} {as : List ι}
    (h : Meets step C s (a :: as)) (hstep : step s a = some t) : Meets step C t as := by
  have h2 := h.2
  rw [hstep] at h2
  exact h2

theorem Meets.and {step : Step σ ι} {C D : σ → ι → Prop} {s : σ} {as : List ι}
    (hC : Meets step C s as) (hD : Meets step D s as) : Meets step (fun s a => C s a ∧ D s a) s as := by
  induction as generalizing s with
  | nil => trivial
  | cons a as ih =>
      refine ⟨⟨hC.head, hD.head⟩, ?_⟩
      cases hstep : step s a with
      | none => trivial
      | some t => exact ih (hC.tail hstep) (hD.tail hstep)

theorem Meets.cons {step : Step σ ι} {C : σ → ι → Prop} {s t : σ} {a : ι} {as : List ι}
    (h : C s a) (hstep : step s a = some t) (hrest : Meets step C t as) :
    Meets step C s (a :: as) := by
  refine ⟨h, ?_⟩
  rw [hstep]
  exact hrest

theorem Meets.append {step : Step σ ι} {C : σ → ι → Prop} {s t : σ} {as bs : List ι}
    (h : Meets step C s as) (hrun : run step s as = some t) (hrest : Meets step C t bs) :
    Meets step C s (as ++ bs) := by
  induction as generalizing s with
  | nil =>
      cases hrun
      exact hrest
  | cons a as ih =>
      obtain ⟨u, hu, hrun⟩ := run_cons_eq_some.mp hrun
      exact Meets.cons h.head hu (ih (h.tail hu) hrun)

theorem Meets.of_forall {step : Step σ ι} {C : ι → Prop} {as : List ι} (h : ∀ a ∈ as, C a) (s : σ) :
    Meets step (fun _ a => C a) s as := by
  induction as generalizing s with
  | nil => trivial
  | cons a as ih =>
      refine ⟨h a List.mem_cons_self, ?_⟩
      cases step s a with
      | none => trivial
      | some t => exact ih (fun b hb => h b (List.mem_cons_of_mem a hb)) t

/-- Two conditions that agree in the states of an invariant are met by the same runs. -/
theorem Meets.congr {step : Step σ ι} {C D : σ → ι → Prop} {P : σ → Prop}
    (hstep : ∀ s a t, P s → step s a = some t → P t) (h : ∀ s a, P s → (C s a ↔ D s a)) {s : σ}
    (hs : P s) (as : List ι) : Meets step C s as ↔ Meets step D s as := by
  induction as generalizing s with
  | nil => exact Iff.rfl
  | cons a as ih =>
      refine and_congr (h s a hs) ?_
      cases ht : step s a with
      | none => exact Iff.rfl
      | some t => exact ih (hstep s a t hs ht)

/-- The invariant rule for runs all of whose steps meet a condition. -/
theorem run_invariant_of_meets {step : Step σ ι} {C : σ → ι → Prop} {P : σ → Prop}
    (hstep : ∀ s a t, P s → C s a → step s a = some t → P t) {s t : σ} {as : List ι}
    (hs : P s) (hmeets : Meets step C s as) (hrun : run step s as = some t) : P t := by
  induction as generalizing s with
  | nil =>
      cases hrun
      exact hs
  | cons a as ih =>
      obtain ⟨u, hu, hrest⟩ := run_cons_eq_some.mp hrun
      exact ih (hstep s a u hs hmeets.head hu) (hmeets.tail hu) hrest

/-- When every action that meets the condition can be taken, so can a list of them. -/
theorem exists_run_of_meets {step : Step σ ι} {C : σ → ι → Prop} {P : σ → Prop}
    (hstep : ∀ s a, P s → C s a → ∃ t, step s a = some t ∧ P t) {s : σ} {as : List ι} (hs : P s)
    (hmeets : Meets step C s as) : ∃ t, run step s as = some t ∧ P t := by
  induction as generalizing s with
  | nil => exact ⟨s, rfl, hs⟩
  | cons a as ih =>
      obtain ⟨t, ht, hinv⟩ := hstep s a hs hmeets.head
      rw [run_cons, ht]
      exact ih hinv (hmeets.tail ht)

/-- What every step either preserves or exchanges for `Q` holds at the end of a run on the way of
which `Q` has not been met. -/
theorem run_until {step : Step σ ι} {C : σ → ι → Prop} {P Q : σ → Prop}
    (hstep : ∀ s a t, P s → C s a → step s a = some t → P t ∨ Q t) {s t : σ} {as : List ι}
    (hs : P s) (hmeets : Meets step C s as) (hrun : run step s as = some t) :
    P t ∨ ∃ bs u, bs <+: as ∧ run step s bs = some u ∧ Q u := by
  induction as generalizing s with
  | nil =>
      cases hrun
      exact Or.inl hs
  | cons a as ih =>
      obtain ⟨u, hu, hrest⟩ := run_cons_eq_some.mp hrun
      rcases hstep s a u hs hmeets.head hu with hP | hQ
      · rcases ih hP (hmeets.tail hu) hrest with hend | ⟨bs, v, hbs, hv, hQ⟩
        · exact Or.inl hend
        · exact Or.inr ⟨a :: bs, v, List.cons_prefix_cons.mpr ⟨rfl, hbs⟩,
            (run_cons_eq hu bs).trans hv, hQ⟩
      · exact Or.inr ⟨[a], u, List.cons_prefix_cons.mpr ⟨rfl, List.nil_prefix⟩,
          run_cons_eq hu [], hQ⟩

/-- A law that a step keeps exactly when it meets a condition holds all along a run exactly when
every step of the run meets it. -/
theorem forall_prefix_iff_meets {step : Step σ ι} {P L : σ → Prop} {C : σ → ι → Prop}
    (hP : ∀ s a t, P s → step s a = some t → P t)
    (hL : ∀ s a t, P s → L s → step s a = some t → (L t ↔ C s a)) {s t : σ} {as : List ι}
    (hs : P s) (hlaw : L s) (hrun : run step s as = some t) :
    (∀ bs u, bs <+: as → run step s bs = some u → L u) ↔ Meets step C s as := by
  induction as generalizing s with
  | nil =>
      refine iff_of_true (fun bs u hbs hu => ?_) trivial
      obtain rfl := List.prefix_nil.mp hbs
      cases hu
      exact hlaw
  | cons a as ih =>
      obtain ⟨u, hu, hrest⟩ := run_cons_eq_some.mp hrun
      have hnext : L u → ((∀ bs v, bs <+: as → run step u bs = some v → L v) ↔ Meets step C u as) :=
        fun hlaw' => ih (hP s a u hs hu) hlaw' hrest
      constructor
      · intro h
        have hlaw' : L u := h [a] u (List.cons_prefix_cons.mpr ⟨rfl, List.nil_prefix⟩) (run_cons_eq hu [])
        refine ⟨(hL s a u hs hlaw hu).mp hlaw', ?_⟩
        rw [hu]
        exact (hnext hlaw').mp fun bs v hbs hv =>
          h (a :: bs) v (List.cons_prefix_cons.mpr ⟨rfl, hbs⟩) ((run_cons_eq hu bs).trans hv)
      · intro h bs v hbs hv
        have hlaw' : L u := (hL s a u hs hlaw hu).mpr h.head
        cases bs with
        | nil =>
            cases hv
            exact hlaw
        | cons b bs =>
            obtain ⟨rfl, hrest'⟩ := List.cons_prefix_cons.mp hbs
            exact (hnext hlaw').mpr (h.tail hu) bs v hrest' ((run_cons_eq hu bs).symm.trans hv)

/-! ### A record beside the system -/

variable {η : Type*}

/-- The system with a record that every action updates, from the state in which it is taken. -/
def record (step : Step σ ι) (obs : σ → ι → η → η) : Step (σ × η) ι := fun p a =>
  (step p.1 a).map fun t => (t, obs p.1 a p.2)

theorem record_eq_some {step : Step σ ι} {obs : σ → ι → η → η} {s t : σ} {x y : η} {a : ι} :
    record step obs (s, x) a = some (t, y) ↔ step s a = some t ∧ obs s a x = y := by
  rw [record, Option.map_eq_some_iff]
  constructor
  · rintro ⟨u, hu, ⟨⟩⟩
    exact ⟨hu, rfl⟩
  · rintro ⟨ht, rfl⟩
    exact ⟨t, ht, rfl⟩

theorem exists_record {step : Step σ ι} (obs : σ → ι → η → η) {s t : σ} {as : List ι} (x : η)
    (hrun : run step s as = some t) : ∃ y, run (record step obs) (s, x) as = some (t, y) := by
  induction as generalizing s x with
  | nil => exact ⟨x, congrArg (fun s => some (s, x)) (Option.some.inj hrun)⟩
  | cons a as ih =>
      obtain ⟨u, hu, hrest⟩ := run_cons_eq_some.mp hrun
      obtain ⟨y, hy⟩ := ih (obs s a x) hrest
      exact ⟨y, run_cons_eq_some.mpr ⟨_, record_eq_some.mpr ⟨hu, rfl⟩, hy⟩⟩

/-- What every step of a system with a record preserves, every run preserves. -/
theorem record_invariant {step : Step σ ι} {obs : σ → ι → η → η} {P : σ → η → Prop}
    (hstep : ∀ s x a t, P s x → step s a = some t → P t (obs s a x)) {s t : σ} {x y : η}
    {as : List ι} (hs : P s x) (hrun : run (record step obs) (s, x) as = some (t, y)) : P t y :=
  run_invariant (P := fun p => P p.1 p.2)
    (fun p a q hp hq => by
      obtain ⟨ht, hy⟩ := record_eq_some.mp hq
      exact hy ▸ hstep p.1 p.2 a q.1 hp ht) hs hrun

theorem record_invariant_of_meets {step : Step σ ι} {obs : σ → ι → η → η} {C : σ → ι → Prop}
    {P : σ → η → Prop} (hstep : ∀ s x a t, P s x → C s a → step s a = some t → P t (obs s a x))
    {s t : σ} {x y : η} {as : List ι} (hs : P s x) (hmeets : Meets step C s as)
    (hrun : run (record step obs) (s, x) as = some (t, y)) : P t y := by
  induction as generalizing s x with
  | nil =>
      cases hrun
      exact hs
  | cons a as ih =>
      obtain ⟨⟨u, z⟩, hu, hrest⟩ := run_cons_eq_some.mp hrun
      obtain ⟨hstepu, rfl⟩ := record_eq_some.mp hu
      exact ih (hstep s x a u hs hmeets.head hstepu) (hmeets.tail hstepu) hrest

end Steps
