import Mathlib.Logic.Function.Basic
import Mathlib.Data.List.Basic
import Mathlib.Data.Nat.Notation

/-!
# Descriptor tables and interest lists

A process names its open files by numbers. A number stands for an open file description; `dup` makes
a second number for the same one, and a number that has been closed may be given away again. The key
of a registration in an interest list is the number together with the description: removing is by the
number and finds the registration only while the number still stands for that description, and a
registration is dropped by itself when the last number of its description is closed (epoll(7)).
-/

/-- A registration: the number that was added and the description it stood for. -/
structure Interest (ν : Type*) where
  fd : ν
  file : ℕ
  deriving DecidableEq

/-- The open numbers, what they stand for, and the interest lists of the instances `κ`. Descriptions
are counted in the order in which they are opened; `ident` is what `fstat` tells of one. -/
structure Descriptors (ν ι κ : Type*) where
  numbers : List ν
  files : ν → Option ℕ
  opened : ℕ
  ident : ℕ → ι
  interest : κ → List (Interest ν)
  mem_numbers : ∀ n, n ∈ numbers ↔ (files n).isSome = true
  file_lt : ∀ n d, files n = some d → d < opened

namespace Descriptors

variable {ν ι κ : Type*}

def empty (id : ι) : Descriptors ν ι κ where
  numbers := []
  files := fun _ => none
  opened := 0
  ident := fun _ => id
  interest := fun _ => []
  mem_numbers n := by simp
  file_lt n d h := by cases h

def fstat (t : Descriptors ν ι κ) (n : ν) : Option ι := (t.files n).map t.ident

theorem fstat_eq_some {t : Descriptors ν ι κ} {n : ν} {id : ι} :
    t.fstat n = some id ↔ ∃ d, t.files n = some d ∧ t.ident d = id :=
  Option.map_eq_some_iff

/-- The descriptions of the one table are those of the other and perhaps later ones. -/
structure Extends (t t' : Descriptors ν ι κ) : Prop where
  opened_le : t.opened ≤ t'.opened
  ident_eq : ∀ d < t.opened, t'.ident d = t.ident d

section Numbers

variable [DecidableEq ν]

/-- The number `n` for the description `d`. -/
def give (t : Descriptors ν ι κ) (n : ν) (d : ℕ) (hd : d < t.opened) : Descriptors ν ι κ :=
  { t with
    numbers := n :: t.numbers
    files := Function.update t.files n (some d)
    mem_numbers := by
      intro m
      rw [List.mem_cons, t.mem_numbers]
      by_cases hm : m = n
      · subst hm
        simp
      · simp [hm]
    file_lt := by
      intro m e h
      by_cases hm : m = n
      · subst hm
        rw [Function.update_self, Option.some.injEq] at h
        exact h ▸ hd
      · rw [Function.update_of_ne hm] at h
        exact t.file_lt m e h }

/-- A new description that `fstat` tells `id` of. -/
def openNew (t : Descriptors ν ι κ) (id : ι) : Descriptors ν ι κ :=
  { t with
    opened := t.opened + 1
    ident := Function.update t.ident t.opened id
    file_lt := fun n d h => Nat.lt_succ_of_lt (t.file_lt n d h) }

def openFd (t : Descriptors ν ι κ) (n : ν) (id : ι) : Option (Descriptors ν ι κ) :=
  match t.files n with
  | none => some ((t.openNew id).give n t.opened (Nat.lt_succ_self t.opened))
  | some _ => none

/-- Makes the free number `m` stand for the same description as `n`. -/
def dup (t : Descriptors ν ι κ) (n m : ν) : Option (Descriptors ν ι κ) :=
  match h : t.files n, t.files m with
  | some d, none => some (t.give m d (t.file_lt n d h))
  | _, _ => none

def sharedBeside (t : Descriptors ν ι κ) (n : ν) (d : ℕ) : Bool :=
  t.numbers.any fun m => decide (m ≠ n ∧ t.files m = some d)

/-- Closes a number; with the last number of a description its registrations go. -/
def close (t : Descriptors ν ι κ) (n : ν) : Option (Descriptors ν ι κ) :=
  match t.files n with
  | none => none
  | some d => some { t with
      numbers := t.numbers.filter (fun m => decide (m ≠ n))
      files := Function.update t.files n none
      interest := fun k =>
        if t.sharedBeside n d then t.interest k
        else (t.interest k).filter fun r => decide (r.file ≠ d)
      mem_numbers := by
        intro m
        rw [List.mem_filter, t.mem_numbers]
        by_cases hm : m = n
        · subst hm
          simp
        · simp [hm]
      file_lt := by
        intro m e h
        by_cases hm : m = n
        · subst hm
          rw [Function.update_self] at h
          cases h
        · rw [Function.update_of_ne hm] at h
          exact t.file_lt m e h }

variable {t t' : Descriptors ν ι κ} {n m : ν} {id : ι} {d : ℕ}

theorem openFd_extends (h : t.openFd n id = some t') : Extends t t' := by
  unfold openFd at h
  split at h
  · obtain rfl := Option.some.inj h
    exact ⟨Nat.le_succ _, fun d hd => Function.update_of_ne (Nat.ne_of_lt hd) _ _⟩
  · cases h

theorem openFd_files (h : t.openFd n id = some t') (hm : t.files m = some d) :
    t'.files m = some d := by
  unfold openFd at h
  split at h
  case h_1 hfree =>
    obtain rfl := Option.some.inj h
    have hne : m ≠ n := by
      rintro rfl
      rw [hfree] at hm
      cases hm
    exact (Function.update_of_ne hne _ _).trans hm
  · cases h

theorem dup_extends (h : t.dup n m = some t') : Extends t t' := by
  unfold dup at h
  split at h
  · obtain rfl := Option.some.inj h
    exact ⟨Nat.le_refl _, fun _ _ => rfl⟩
  · cases h

theorem dup_files {m' : ν} (h : t.dup n m = some t') (hm : t.files m' = some d) :
    t'.files m' = some d := by
  unfold dup at h
  split at h
  case h_1 hfree =>
    obtain rfl := Option.some.inj h
    have hne : m' ≠ m := by
      rintro rfl
      rw [hfree] at hm
      cases hm
    exact (Function.update_of_ne hne _ _).trans hm
  · cases h

theorem close_extends (h : t.close n = some t') : Extends t t' := by
  unfold close at h
  split at h
  · cases h
  · obtain rfl := Option.some.inj h
    exact ⟨Nat.le_refl _, fun _ _ => rfl⟩

theorem close_files (h : t.close n = some t') (hne : m ≠ n) : t'.files m = t.files m := by
  unfold close at h
  split at h
  · cases h
  · obtain rfl := Option.some.inj h
    exact Function.update_of_ne hne _ _

end Numbers

section InterestLists

variable [DecidableEq κ]

def setInterest (t : Descriptors ν ι κ) (k : κ) (l : List (Interest ν)) : Descriptors ν ι κ :=
  { t with interest := Function.update t.interest k l }

variable [DecidableEq ν]

/-- `EPOLL_CTL_ADD`; it fails for a number that is not open and for a registration that exists. -/
def epollAdd (t : Descriptors ν ι κ) (k : κ) (n : ν) : Descriptors ν ι κ :=
  match t.files n with
  | none => t
  | some d =>
      if ⟨n, d⟩ ∈ t.interest k then t
      else t.setInterest k (⟨n, d⟩ :: t.interest k)

/-- `EPOLL_CTL_DEL`; it fails when the number is not open or not registered. -/
def epollDel (t : Descriptors ν ι κ) (k : κ) (n : ν) : Descriptors ν ι κ :=
  match t.files n with
  | none => t
  | some d => t.setInterest k ((t.interest k).filter fun r => decide (r ≠ ⟨n, d⟩))

variable {t : Descriptors ν ι κ} {n : ν} {k : κ}

@[simp] theorem epollAdd_files : (t.epollAdd k n).files = t.files := by
  unfold epollAdd
  split
  · rfl
  · split <;> rfl

@[simp] theorem epollAdd_ident : (t.epollAdd k n).ident = t.ident := by
  unfold epollAdd
  split
  · rfl
  · split <;> rfl

@[simp] theorem epollAdd_opened : (t.epollAdd k n).opened = t.opened := by
  unfold epollAdd
  split
  · rfl
  · split <;> rfl

@[simp] theorem epollDel_files : (t.epollDel k n).files = t.files := by
  unfold epollDel
  split <;> rfl

@[simp] theorem epollDel_ident : (t.epollDel k n).ident = t.ident := by
  unfold epollDel
  split <;> rfl

@[simp] theorem epollDel_opened : (t.epollDel k n).opened = t.opened := by
  unfold epollDel
  split <;> rfl

/-- Removing by a number takes away the registration of that number for what it now stands for. -/
theorem epollDel_interest (t : Descriptors ν ι κ) (k l : κ) (n : ν) :
    (t.epollDel k n).interest l =
      (t.interest l).filter fun r => ! decide (l = k ∧ r.fd = n ∧ t.files r.fd = some r.file) := by
  cases hn : t.files n with
  | none =>
      rw [epollDel, hn]
      symm
      apply List.filter_eq_self.mpr
      rintro r -
      rw [Bool.not_eq_true', decide_eq_false_iff_not]
      rintro ⟨-, rfl, h⟩
      rw [hn] at h
      cases h
  | some d =>
      simp only [epollDel, hn, setInterest]
      by_cases hl : l = k
      · subst hl
        simp only [Function.update_self]
        apply List.filter_congr
        rintro ⟨m, e⟩ -
        by_cases hm : m = n
        · subst hm
          simp [hn, eq_comm]
        · simp [hm]
      · simp only [Function.update_of_ne hl]
        symm
        apply List.filter_eq_self.mpr
        intro r _
        simp [hl]

def epollDelAll (t : Descriptors ν ι κ) (dels : List (κ × ν)) : Descriptors ν ι κ :=
  dels.foldl (fun t p => t.epollDel p.1 p.2) t

theorem epollDelAll_cons (t : Descriptors ν ι κ) (p : κ × ν) (dels : List (κ × ν)) :
    t.epollDelAll (p :: dels) = (t.epollDel p.1 p.2).epollDelAll dels := rfl

theorem epollDelAll_concat (t : Descriptors ν ι κ) (dels : List (κ × ν)) (p : κ × ν) :
    t.epollDelAll (dels ++ [p]) = (t.epollDelAll dels).epollDel p.1 p.2 := by
  rw [epollDelAll, List.foldl_append]
  rfl

theorem epollDelAll_files (t : Descriptors ν ι κ) (dels : List (κ × ν)) :
    (t.epollDelAll dels).files = t.files := by
  induction dels generalizing t with
  | nil => rfl
  | cons p dels ih => rw [epollDelAll_cons, ih, epollDel_files]

theorem epollDelAll_ident (t : Descriptors ν ι κ) (dels : List (κ × ν)) :
    (t.epollDelAll dels).ident = t.ident := by
  induction dels generalizing t with
  | nil => rfl
  | cons p dels ih => rw [epollDelAll_cons, ih, epollDel_ident]

@[simp] theorem epollDelAll_fstat (t : Descriptors ν ι κ) (dels : List (κ × ν)) (n : ν) :
    (t.epollDelAll dels).fstat n = t.fstat n := by
  rw [fstat, epollDelAll_files, epollDelAll_ident]
  rfl

theorem epollDelAll_interest (t : Descriptors ν ι κ) (dels : List (κ × ν)) (k : κ) :
    (t.epollDelAll dels).interest k = (t.interest k).filter fun r =>
      ! decide ((k, r.fd) ∈ dels ∧ t.files r.fd = some r.file) := by
  induction dels generalizing t with
  | nil =>
      symm
      apply List.filter_eq_self.mpr
      intro r _
      simp
  | cons p dels ih =>
      rw [epollDelAll_cons, ih, epollDel_interest, List.filter_filter, epollDel_files]
      apply List.filter_congr
      intro r _
      obtain ⟨l, n⟩ := p
      rw [← Bool.not_or, ← Bool.decide_or]
      congr 1
      apply decide_eq_decide.mpr
      rw [List.mem_cons, Prod.mk.injEq]
      constructor
      · rintro (⟨hmem, hfile⟩ | ⟨hk, hn, hfile⟩)
        · exact ⟨Or.inr hmem, hfile⟩
        · exact ⟨Or.inl ⟨hk, hn⟩, hfile⟩
      · rintro ⟨⟨hk, hn⟩ | hmem, hfile⟩
        · exact Or.inr ⟨hk, hn, hfile⟩
        · exact Or.inl ⟨hmem, hfile⟩

end InterestLists

end Descriptors
