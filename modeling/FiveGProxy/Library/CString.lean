import Mathlib.Data.List.TakeWhile
import Mathlib.Data.List.Basic
import Mathlib.Data.UInt

/-!
# Strings in buffers

A buffer is a list of a fixed length; the string that it holds ends at the first `0`. What is
copied into a buffer by `strncpy` and terminated by hand is the source, cut to the room that there
is, and two strings can be compared on as many cells as one of them has.
-/

namespace CString

variable {α : Type*} [Zero α] [DecidableEq α]

def content (buf : List α) : List α := buf.takeWhile fun b => decide (b ≠ 0)

def strlen (buf : List α) : ℕ := (content buf).length

/-- The cells of `dst` after `strncpy(dst, src, n)`. -/
def strncpy (dst src : List α) (n : ℕ) : List α :=
  src.take n ++ (List.replicate (n - src.length) 0 ++ dst.drop n)

/-- The result of `memcmp(a, b, n) == 0`. -/
def memEq (a b : List α) (n : ℕ) : Bool := decide (a.take n = b.take n)

/-- A string without its terminator. -/
structure CStr (α : Type*) [Zero α] where
  bytes : List α
  noNul : 0 ∉ bytes

theorem zero_notMem_content (buf : List α) : 0 ∉ content buf := by
  intro h
  have := List.mem_takeWhile_imp h
  simp at this

/-- What stands behind the terminator does not belong to the string. -/
theorem content_append_zero {s : List α} (h : 0 ∉ s) (rest : List α) :
    content (s ++ 0 :: rest) = s := by
  rw [content, List.takeWhile_append_of_pos, List.takeWhile_cons_of_neg (by simp), List.append_nil]
  intro b hb
  refine decide_eq_true ?_
  rintro rfl
  exact h hb

/-- A string can be stored with a terminator when it has no zero in it. -/
theorem content_append_zero_iff {s : List α} : content (s ++ [0]) = s ↔ 0 ∉ s := by
  constructor
  · intro heq
    rw [← heq]
    exact zero_notMem_content _
  · exact fun h => content_append_zero h []

theorem take_strlen (buf : List α) : buf.take (strlen buf) = content buf := by
  induction buf with
  | nil => rfl
  | cons b buf ih =>
      by_cases hb : b = 0
      · simp [strlen, content, hb]
      · have hcons : content (b :: buf) = b :: content buf := by simp [content, hb]
        rw [strlen, hcons, List.length_cons, List.take_succ_cons]
        exact congrArg (b :: ·) ih

omit [DecidableEq α] in
theorem length_strncpy {dst src : List α} {n : ℕ} (h : n ≤ dst.length) :
    (strncpy dst src n).length = dst.length := by
  rw [strncpy, List.length_append, List.length_append, List.length_take, List.length_replicate,
    List.length_drop]
  omega

/-- A string that was copied with `strncpy` and terminated at the end of the room. -/
theorem content_strncpy {dst src : List α} {n : ℕ} (h : n < dst.length) (hsrc : 0 ∉ src) :
    content ((strncpy dst src n).set n 0) = src.take n := by
  have hcut : 0 ∉ src.take n := fun hmem => hsrc (List.mem_of_mem_take hmem)
  by_cases hlen : src.length < n
  · obtain ⟨k, hk⟩ : ∃ k, n - src.length = k + 1 := ⟨n - src.length - 1, by omega⟩
    rw [strncpy, List.take_of_length_le (Nat.le_of_lt hlen), hk, List.replicate_succ, List.cons_append,
      List.set_append_right _ _ (Nat.le_of_lt hlen), hk, List.set_cons_succ]
    exact content_append_zero hsrc _
  · obtain ⟨b, rest, hrest⟩ : ∃ b rest, dst.drop n = b :: rest :=
      List.exists_cons_of_length_pos (by rw [List.length_drop]; omega)
    have hzero : n - src.length = 0 := by omega
    have htake : (src.take n).length = n := by rw [List.length_take]; omega
    rw [strncpy, hzero, List.replicate_zero, List.nil_append, hrest,
      List.set_append_right _ _ (Nat.le_of_eq htake), htake, Nat.sub_self, List.set_cons_zero]
    exact content_append_zero hcut _

/-- A copy of the cells before the last one, behind which a terminator stands. -/
theorem content_take_append {buf : List α} {n : ℕ} (h : strlen buf ≤ n) (rest : List α) :
    content (buf.take n ++ 0 :: rest) = content buf := by
  induction buf generalizing n with
  | nil => simp [content]
  | cons b buf ih =>
      by_cases hb : b = 0
      · cases n <;> simp [content, hb]
      · have hcons : content (b :: buf) = b :: content buf := by simp [content, hb]
        rw [strlen, hcons, List.length_cons] at h
        obtain ⟨m, rfl⟩ : ∃ m, n = m + 1 := ⟨n - 1, by omega⟩
        rw [hcons, ← ih (n := m) (Nat.le_of_succ_le_succ h)]
        simp [content, hb]

/-- A list of the same length that agrees with a buffer on its string is that string. -/
theorem memEq_strlen {a buf : List α} (h : a.length = strlen buf) :
    memEq a buf (strlen buf) = true ↔ a = content buf := by
  rw [memEq, decide_eq_true_iff, take_strlen, List.take_of_length_le (Nat.le_of_eq h)]

end CString
