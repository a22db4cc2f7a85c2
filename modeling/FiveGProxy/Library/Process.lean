import Mathlib.Data.Nat.Notation
import Mathlib.Data.List.Defs

/-!
# Processes as trees of actions

A process takes its actions one after the other, and what it does next depends on the answer to the
last. The actions have no meaning here; a system gives them one, and lets its processes take turns.
What holds of all courses of a process, whatever the others do in between, is computed by recursion
on the tree: `everywhere`, `occurs` and `inevitable`.
-/

/-- A process that takes actions `α`, each answered by yes or no, and ends with a value. -/
inductive Process (α : Type*) (β : Type*)
  | pure (b : β)
  | act (a : α) (next : Bool → Process α β)

namespace Process

variable {α β γ : Type*}

def bind : Process α β → (β → Process α γ) → Process α γ
  | .pure b, f => f b
  | .act a next, f => .act a fun answer => (next answer).bind f

instance : Monad (Process α) where
  pure := .pure
  bind := bind

def ask (a : α) : Process α Bool := .act a .pure

def tell (a : α) : Process α Unit := .act a fun _ => .pure ()

def ended : Process α β → Bool
  | .pure _ => true
  | .act .. => false

def along (p : Process α β) (answers : ℕ → Bool) : ℕ → Process α β
  | 0 => p
  | n + 1 =>
      match p.along answers n with
      | .pure b => .pure b
      | .act _ next => next (answers n)

theorem along_succ {p : Process α β} {answers : ℕ → Bool} {n : ℕ} {a : α}
    {next : Bool → Process α β} (h : p.along answers n = .act a next) :
    p.along answers (n + 1) = next (answers n) := by
  rw [along, h]

/-! ### Everywhere -/

def everywhere (P : Process α β → Bool) : Process α β → Bool
  | .pure b => P (.pure b)
  | .act a next => P (.act a next) && everywhere P (next true) && everywhere P (next false)

variable {P : Process α β → Bool} {p : Process α β} {a : α} {rest : Bool → Process α β}

theorem everywhere_here (h : p.everywhere P = true) : P p = true := by
  cases p with
  | pure b => exact h
  | act a next =>
      rw [everywhere, Bool.and_eq_true, Bool.and_eq_true] at h
      exact h.1.1

theorem everywhere_next (h : everywhere P (.act a rest) = true) (answer : Bool) :
    (rest answer).everywhere P = true := by
  rw [everywhere, Bool.and_eq_true, Bool.and_eq_true] at h
  cases answer with
  | true => exact h.1.2
  | false => exact h.2

/-! ### Somewhere -/

def occurs (Q : α → Bool) : Process α β → Bool
  | .pure _ => false
  | .act a next => Q a || occurs Q (next true) || occurs Q (next false)

variable {Q : α → Bool}

theorem not_occurs_here (h : occurs Q (.act a rest) = false) : Q a = false := by
  rw [occurs, Bool.or_eq_false_iff, Bool.or_eq_false_iff] at h
  exact h.1.1

theorem not_occurs_next (h : occurs Q (.act a rest) = false) (answer : Bool) :
    (rest answer).occurs Q = false := by
  rw [occurs, Bool.or_eq_false_iff, Bool.or_eq_false_iff] at h
  cases answer with
  | true => exact h.1.2
  | false => exact h.2

theorem occurs_of_next {answer : Bool} (h : (rest answer).occurs Q = true) :
    occurs Q (.act a rest) = true := by
  rw [occurs, Bool.or_eq_true, Bool.or_eq_true]
  cases answer with
  | true => exact .inl (.inr h)
  | false => exact .inr h

theorem occurs_mono {Q' : α → Bool} (hQ : ∀ a, Q a = true → Q' a = true)
    (h : p.occurs Q = true) : p.occurs Q' = true := by
  induction p with
  | pure b => cases h
  | act a next ih =>
      rw [occurs, Bool.or_eq_true, Bool.or_eq_true] at h ⊢
      exact h.imp (Or.imp (hQ a) (ih true)) (ih false)

/-! ### Inevitably -/

/-- On every course with answers that are allowed the process comes to an action of the given kind,
and before that to none that bars the way. -/
def inevitable (allows : α → Bool → Bool) (bars Q : α → Bool) : Process α β → Bool
  | .pure _ => false
  | .act a next => Q a || !bars a &&
      (!allows a true || inevitable allows bars Q (next true)) &&
      (!allows a false || inevitable allows bars Q (next false))

variable {allows : α → Bool → Bool} {bars : α → Bool}

theorem inevitable_cases (h : inevitable allows bars Q (.act a rest) = true) :
    Q a = true ∨ bars a = false ∧
      ∀ answer, allows a answer = true → (rest answer).inevitable allows bars Q = true := by
  rw [inevitable, Bool.or_eq_true, Bool.and_eq_true, Bool.and_eq_true, Bool.or_eq_true,
    Bool.or_eq_true] at h
  refine h.imp_right ?_
  rintro ⟨⟨hbars, htrue⟩, hfalse⟩
  refine ⟨by simpa using hbars, fun answer hallows => ?_⟩
  cases answer with
  | true => exact htrue.resolve_left (by simp [hallows])
  | false => exact hfalse.resolve_left (by simp [hallows])

theorem ended_of_inevitable (h : p.inevitable allows bars Q = true) : p.ended = false := by
  cases p with
  | pure b => cases h
  | act a next => rfl

/-- What is inevitable is possible, if there is an answer to every action. -/
theorem occurs_of_inevitable (hallows : ∀ a, ∃ answer, allows a answer = true)
    (h : p.inevitable allows bars Q = true) : p.occurs Q = true := by
  induction p with
  | pure b => cases h
  | act a next ih =>
      rw [Process.occurs, Bool.or_eq_true, Bool.or_eq_true]
      rcases inevitable_cases h with hQ | ⟨-, hnext⟩
      · exact .inl (.inl hQ)
      · obtain ⟨answer, hanswer⟩ := hallows a
        have hoccurs := ih answer (hnext answer hanswer)
        cases answer with
        | true => exact .inl (.inr hoccurs)
        | false => exact .inr hoccurs

end Process
