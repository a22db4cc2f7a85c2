import FiveGProxy.Library.Steps
import Mathlib.Logic.Function.Basic
import Mathlib.Data.List.Count

/-!
# A ledger of resources

Resources are acquired and released one at a time. The ledger refuses to acquire what is held and
to release what is not, so a list of operations that it accepts takes nothing twice and gives
nothing back twice. `ledger_count` is the account: a resource is released as often as it was
acquired, up to what was held before and what is held afterwards.
-/

namespace Ledger

open Steps

variable {R : Type*} [DecidableEq R]

inductive Op (R : Type*)
  | acquire (r : R)
  | release (r : R)
  deriving DecidableEq

def step : Step (R → Bool) (Op R) := fun held op =>
  match op with
  | .acquire r => if held r then none else some (Function.update held r true)
  | .release r => if held r then some (Function.update held r false) else none

theorem acquire_eq_some {held : R → Bool} {r : R} (h : held r = false) :
    step held (.acquire r) = some (Function.update held r true) := by
  rw [step, h]
  rfl

theorem release_eq_some {held : R → Bool} {r : R} (h : held r = true) :
    step held (.release r) = some (Function.update held r false) := by
  rw [step, h]
  rfl

theorem step_count {held held' : R → Bool} {op : Op R} (h : step held op = some held') (r : R) :
    (if op = .release r then 1 else 0) + (held' r).toNat =
      (if op = .acquire r then 1 else 0) + (held r).toNat := by
  cases op with
  | acquire s =>
      simp only [step] at h
      split at h
      case isTrue => cases h
      case isFalse hs =>
        obtain rfl := Option.some.inj h
        by_cases hr : s = r
        · subst hr
          simp [hs]
        · simp [hr, Function.update_of_ne (Ne.symm hr)]
  | release s =>
      simp only [step] at h
      split at h
      case isFalse => cases h
      case isTrue hs =>
        obtain rfl := Option.some.inj h
        by_cases hr : s = r
        · subst hr
          simp [hs]
        · simp [hr, Function.update_of_ne (Ne.symm hr)]

theorem ledger_count {held held' : R → Bool} {ops : List (Op R)}
    (h : run step held ops = some held') (r : R) :
    ops.count (.release r) + (held' r).toNat = ops.count (.acquire r) + (held r).toNat := by
  induction ops generalizing held with
  | nil =>
      obtain rfl := Option.some.inj h
      rfl
  | cons op ops ih =>
      obtain ⟨mid, hstep, hrest⟩ := run_cons_eq_some.mp h
      have hhead := step_count hstep r
      have htail := ih hrest
      rw [List.count_cons, List.count_cons]
      simp only [beq_iff_eq]
      omega

/-! ### What is held, as a list -/

def holding (rs : List R) : R → Bool := fun r => decide (r ∈ rs)

theorem holding_congr {rs rs' : List R} (h : ∀ r, r ∈ rs ↔ r ∈ rs') : holding rs = holding rs' := by
  funext r
  exact decide_eq_decide.mpr (h r)

theorem step_acquire {rs : List R} {r : R} (h : r ∉ rs) :
    step (holding rs) (.acquire r) = some (holding (r :: rs)) := by
  have hfree : holding rs r = false := decide_eq_false h
  rw [acquire_eq_some hfree]
  congr 1
  funext s
  by_cases hs : s = r
  · simp [hs, holding]
  · simp [holding, hs]

theorem step_release {rs : List R} {r : R} (h : r ∉ rs) :
    step (holding (r :: rs)) (.release r) = some (holding rs) := by
  rw [release_eq_some (by simp [holding])]
  congr 1
  funext s
  by_cases hs : s = r
  · simp [hs, holding, h]
  · simp [holding, hs]

/-- Everything that is held can be given back, in the order of the list. -/
theorem run_release {rs : List R} (h : rs.Nodup) :
    run step (holding rs) (rs.map .release) = some (holding []) := by
  induction rs with
  | nil => rfl
  | cons r rs ih =>
      obtain ⟨hr, hrs⟩ := List.nodup_cons.mp h
      rw [List.map_cons, run_cons, step_release hr]
      exact ih hrs

end Ledger
