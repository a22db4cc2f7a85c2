import Mathlib.Logic.Function.Basic
import Mathlib.Data.List.Basic
import Mathlib.Data.Nat.ModEq

/-!
# Ring buffers

An array of fixed size with the index of the first element, the index behind the last one and the
number of elements. The indices go round; `contents` is the queue that the array stands for.
-/

/-- A ring buffer with `n` slots; a slot that holds no element of the queue may hold anything. -/
structure RingBuffer (α : Type*) (n : ℕ) where
  slots : Fin n → α
  head : ℕ
  tail : ℕ
  count : ℕ
  head_lt : head < n
  tail_eq : tail = (head + count) % n
  count_le : count ≤ n

namespace RingBuffer

variable {α : Type*} {n : ℕ}

theorem mod_lt (r : RingBuffer α n) (i : ℕ) : i % n < n := Nat.mod_lt i (Nat.zero_lt_of_lt r.head_lt)

theorem tail_lt (r : RingBuffer α n) : r.tail < n := by
  rw [r.tail_eq]
  exact r.mod_lt _

/-- The `i`th element. -/
def get (r : RingBuffer α n) (i : ℕ) : α := r.slots ⟨(r.head + i) % n, r.mod_lt _⟩

def contents (r : RingBuffer α n) : List α := (List.range r.count).map r.get

@[simp] theorem length_contents (r : RingBuffer α n) : r.contents.length = r.count := by
  simp [contents]

def clear (r : RingBuffer α n) : RingBuffer α n where
  slots := r.slots
  head := 0
  tail := 0
  count := 0
  head_lt := Nat.zero_lt_of_lt r.head_lt
  tail_eq := (Nat.zero_mod n).symm
  count_le := Nat.zero_le n

def enqueue (r : RingBuffer α n) (a : α) : Option (RingBuffer α n) :=
  if h : r.count < n then
    some {
      slots := Function.update r.slots ⟨r.tail, r.tail_lt⟩ a
      head := r.head
      tail := (r.tail + 1) % n
      count := r.count + 1
      head_lt := r.head_lt
      tail_eq := by rw [r.tail_eq, Nat.mod_add_mod, Nat.add_assoc]
      count_le := h }
  else none

def dequeue (r : RingBuffer α n) : Option (α × RingBuffer α n) :=
  if h : 0 < r.count then
    some (r.slots ⟨r.head, r.head_lt⟩, {
      slots := r.slots
      head := (r.head + 1) % n
      tail := r.tail
      count := r.count - 1
      head_lt := r.mod_lt _
      tail_eq := by rw [r.tail_eq, Nat.mod_add_mod, Nat.add_assoc, Nat.add_sub_cancel' h]
      count_le := Nat.le_trans (Nat.sub_le _ _) r.count_le })
  else none

/-- An element of the queue is not in the slot behind the last one. -/
theorem ne_tail (r : RingBuffer α n) {i : ℕ} (hi : i < r.count) (hroom : r.count < n) :
    (r.head + i) % n ≠ r.tail := by
  intro heq
  rw [r.tail_eq] at heq
  have hmod : i % n = r.count % n := Nat.ModEq.add_left_cancel' r.head heq
  rw [Nat.mod_eq_of_lt (hi.trans hroom), Nat.mod_eq_of_lt hroom] at hmod
  exact Nat.ne_of_lt hi hmod

theorem enqueue_eq_none {r : RingBuffer α n} {a : α} : r.enqueue a = none ↔ n ≤ r.count := by
  unfold enqueue
  split
  case isTrue h => simpa using h
  case isFalse h => simpa using h

theorem contents_enqueue {r r' : RingBuffer α n} {a : α} (h : r.enqueue a = some r') :
    r'.contents = r.contents ++ [a] := by
  unfold enqueue at h
  split at h
  case isFalse => cases h
  case isTrue hroom =>
    cases h
    simp only [contents, List.range_succ, List.map_append, List.map_cons, List.map_nil]
    congr 1
    · refine List.map_congr_left fun i hi => ?_
      refine Function.update_of_ne ?_ _ _
      intro heq
      exact r.ne_tail (List.mem_range.mp hi) hroom (congrArg Fin.val heq)
    · have htail : (⟨(r.head + r.count) % n, r.mod_lt _⟩ : Fin n) = ⟨r.tail, r.tail_lt⟩ :=
        Fin.ext r.tail_eq.symm
      simp only [get, htail, Function.update_self]

theorem dequeue_eq_none {r : RingBuffer α n} : r.dequeue = none ↔ r.contents = [] := by
  rw [← List.length_eq_zero_iff, length_contents]
  unfold dequeue
  split
  case isTrue h => simpa using Nat.ne_of_gt h
  case isFalse h => simpa using h

theorem contents_dequeue {r r' : RingBuffer α n} {a : α} (h : r.dequeue = some (a, r')) :
    r.contents = a :: r'.contents := by
  unfold dequeue at h
  split at h
  case isFalse => cases h
  case isTrue hsome =>
    cases h
    have hrange : List.range r.count = 0 :: (List.range (r.count - 1)).map Nat.succ := by
      rw [← List.range_succ_eq_map, Nat.sub_add_cancel hsome]
    have hfirst : r.get 0 = r.slots ⟨r.head, r.head_lt⟩ := by
      simp only [get, Nat.add_zero, Nat.mod_eq_of_lt r.head_lt]
    rw [contents, hrange, List.map_cons, List.map_map, hfirst]
    refine congrArg _ (List.map_congr_left fun i _ => ?_)
    simp only [get, Function.comp, Nat.succ_eq_add_one, Nat.mod_add_mod, Nat.add_assoc,
      Nat.add_comm 1 i]

end RingBuffer
