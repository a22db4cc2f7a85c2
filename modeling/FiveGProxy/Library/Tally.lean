import Mathlib.Algebra.BigOperators.Group.Finset.Basic
import Mathlib.Algebra.BigOperators.Group.Finset.Piecewise
import Mathlib.Algebra.BigOperators.Group.List.Basic
import Mathlib.Algebra.GroupWithZero.Nat

/-!
# Totals over the parts of a system

A system keeps one counter for each of its workers, and each of its parts has an amount of its own.
When a part is replaced, the total of the amounts changes by what the part has gained; when a worker
is credited with that gain, the total of the counters changes by as much.
-/

namespace Tally

open Finset

variable {ι σ : Type*} [DecidableEq ι]

/-- The counters after worker `w` has been credited with `n`. -/
def credit (g : ι → ℕ) (w : ι) (n : ℕ) : ι → ℕ := Function.update g w (g w + n)

theorem sum_credit [Fintype ι] (g : ι → ℕ) (w : ι) (n : ℕ) :
    ∑ i, credit g w n i = (∑ i, g i) + n := by
  rw [credit, sum_update_of_mem (mem_univ w), ← add_sum_erase univ g (mem_univ w),
    sdiff_singleton_eq_erase]
  omega

/-- One part is replaced; `f` is the amount that a part has. -/
theorem sum_update [Fintype ι] (f : σ → ℕ) (g : ι → σ) (w : ι) (q : σ) :
    ∑ i, f (Function.update g w q i) + f (g w) = ∑ i, f (g i) + f q := by
  have hrest : ∑ i ∈ univ.erase w, f (Function.update g w q i) = ∑ i ∈ univ.erase w, f (g i) :=
    sum_congr rfl fun i hi => by rw [Function.update_of_ne (ne_of_mem_erase hi)]
  rw [← add_sum_erase univ _ (mem_univ w), ← add_sum_erase univ (fun i => f (g i)) (mem_univ w),
    hrest, Function.update_self]
  omega

def total (f : σ → ℕ) (parts : List σ) : ℕ := (parts.map f).sum

theorem total_append (f : σ → ℕ) (p : σ) (hp : f p = 0) (parts : List σ) :
    total f (parts ++ [p]) = total f parts := by
  rw [total, List.map_append, List.sum_append]
  simp [total, hp]

theorem total_set (f : σ → ℕ) {parts : List σ} {i : ℕ} {p : σ} (h : parts[i]? = some p) (q : σ) :
    total f (parts.set i q) + f p = total f parts + f q := by
  induction parts generalizing i with
  | nil => cases h
  | cons r rest ih =>
      cases i with
      | zero =>
          cases h
          simp only [total, List.set_cons_zero, List.map_cons, List.sum_cons]
          omega
      | succ i =>
          have hrest := ih h
          simp only [total, List.set_cons_succ, List.map_cons, List.sum_cons] at hrest ⊢
          omega

theorem sum_credit_set [Fintype ι] {f : σ → ℕ} {g : ι → ℕ} {parts : List σ} {i : ℕ} {p : σ}
    (hsum : ∑ i, g i = total f parts) (hp : parts[i]? = some p) (q : σ) (hle : f p ≤ f q) (w : ι) :
    ∑ i, credit g w (f q - f p) i = total f (parts.set i q) := by
  have hset := total_set f hp q
  rw [sum_credit, hsum]
  omega

theorem total_eq_zero {f : σ → ℕ} {parts : List σ} (h : ∀ p ∈ parts, f p = 0) :
    total f parts = 0 := by
  induction parts with
  | nil => rfl
  | cons p rest ih =>
      have hrest := ih fun q hq => h q (List.mem_cons_of_mem p hq)
      simp only [total, List.map_cons, List.sum_cons] at hrest ⊢
      rw [hrest, h p List.mem_cons_self]

theorem total_congr {f g : σ → ℕ} {parts : List σ} (h : ∀ p ∈ parts, f p = g p) :
    total f parts = total g parts := by
  rw [total, total, List.map_congr_left h]

theorem total_add (f g : σ → ℕ) (parts : List σ) :
    total (fun p => f p + g p) parts = total f parts + total g parts := by
  induction parts with
  | nil => rfl
  | cons p rest ih =>
      simp only [total, List.map_cons, List.sum_cons] at ih ⊢
      omega

/-- The places that have something are not more than there is in total. -/
theorem card_le_total {f : σ → ℕ} {parts : List σ} {places : Finset ℕ}
    (h : ∀ i ∈ places, ∃ p, parts[i]? = some p ∧ 0 < f p) : places.card ≤ total f parts := by
  induction parts using List.reverseRecOn generalizing places with
  | nil =>
      rw [Finset.eq_empty_of_forall_notMem (s := places) fun i hi => by simpa using h i hi]
      exact Nat.zero_le _
  | append_singleton rest q ih =>
      have hrest : (places.erase rest.length).card ≤ total f rest := by
        refine ih fun i hi => ?_
        obtain ⟨p, hp, hpos⟩ := h i (mem_of_mem_erase hi)
        obtain ⟨hlt, -⟩ := List.getElem?_eq_some_iff.mp hp
        have hne := ne_of_mem_erase hi
        simp only [List.length_append, List.length_singleton] at hlt
        rw [List.getElem?_append_left (by omega)] at hp
        exact ⟨p, hp, hpos⟩
      have htotal : total f (rest ++ [q]) = total f rest + f q := by
        simp [total]
      rw [htotal]
      by_cases hmem : rest.length ∈ places
      · obtain ⟨p, hp, hpos⟩ := h _ hmem
        rw [List.getElem?_concat_length] at hp
        cases hp
        rw [card_erase_of_mem hmem] at hrest
        omega
      · rw [erase_eq_of_notMem hmem] at hrest
        omega

end Tally
