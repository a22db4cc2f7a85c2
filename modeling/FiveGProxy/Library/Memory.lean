import Mathlib.Data.List.Basic
import Mathlib.Data.List.Range

/-!
# Memory as a function of the offset

A buffer is read by `slice` and changed by `write`, both at an offset. The buffer itself has
no length: whoever accesses it has to check the access against the size of its allocation.
The lemmas say what a slice of a written buffer is when the slice ends with the written bytes,
is exactly them, or does not meet them.
-/

namespace Memory

variable {α : Type*}

/-- The `n` cells from the offset `off`. -/
def slice (m : ℕ → α) (off n : ℕ) : List α :=
  (List.range n).map fun i => m (off + i)

/-- Stores the list at the offset `off`. -/
def write (m : ℕ → α) (off : ℕ) (bs : List α) : ℕ → α :=
  fun i => if i < off then m i else (bs[i - off]?).getD (m i)

@[simp] theorem length_slice (m : ℕ → α) (off n : ℕ) : (slice m off n).length = n := by
  simp [slice]

@[simp] theorem slice_zero (m : ℕ → α) (off : ℕ) : slice m off 0 = [] := rfl

theorem getElem?_slice (m : ℕ → α) (off : ℕ) {n i : ℕ} (h : i < n) :
    (slice m off n)[i]? = some (m (off + i)) := by
  simp [slice, h]

theorem slice_congr {m m' : ℕ → α} {off off' n : ℕ}
    (h : ∀ i, i < n → m (off + i) = m' (off' + i)) :
    slice m off n = slice m' off' n := by
  unfold slice
  apply List.map_congr_left
  intro i hi
  exact h i (List.mem_range.mp hi)

theorem slice_add (m : ℕ → α) (off n k : ℕ) :
    slice m off (n + k) = slice m off n ++ slice m (off + n) k := by
  unfold slice
  rw [List.range_add, List.map_append, List.map_map]
  congr 1
  apply List.map_congr_left
  intro i _
  simp [Nat.add_assoc]

theorem slice_take (m : ℕ → α) (off : ℕ) {n k : ℕ} (h : k ≤ n) :
    (slice m off n).take k = slice m off k := by
  obtain ⟨j, rfl⟩ := Nat.exists_eq_add_of_le h
  rw [slice_add, List.take_left' (length_slice m off k)]

theorem write_of_lt (m : ℕ → α) {off i : ℕ} (bs : List α) (h : i < off) :
    write m off bs i = m i := by
  simp [write, h]

theorem write_of_ge (m : ℕ → α) {off i : ℕ} (bs : List α) (h : off + bs.length ≤ i) :
    write m off bs i = m i := by
  have h1 : ¬ i < off := by omega
  have h2 : bs[i - off]? = none := List.getElem?_eq_none (by omega)
  simp [write, h1, h2]

theorem write_add (m : ℕ → α) (off : ℕ) (bs : List α) {i : ℕ} (h : i < bs.length) :
    write m off bs (off + i) = bs[i] := by
  simp [write, h]

theorem slice_write_self (m : ℕ → α) (off : ℕ) (bs : List α) :
    slice (write m off bs) off bs.length = bs := by
  apply List.ext_getElem
  · simp
  · intro i h1 h2
    simp [slice, write_add m off bs h2]

/-- A slice that ends before the stored bytes or begins after them is not changed. -/
theorem slice_write_of_disjoint (m : ℕ → α) {off n at' : ℕ} (bs : List α)
    (h : off + n ≤ at' ∨ at' + bs.length ≤ off) :
    slice (write m at' bs) off n = slice m off n := by
  apply slice_congr
  intro i hi
  rcases h with h | h
  · exact write_of_lt m bs (by omega)
  · exact write_of_ge m bs (by omega)

theorem slice_write_append (m : ℕ → α) (off n : ℕ) (bs : List α) :
    slice (write m (off + n) bs) off (n + bs.length) = slice m off n ++ bs := by
  rw [slice_add, slice_write_of_disjoint m bs (Or.inl le_rfl), slice_write_self]

def ofList [Inhabited α] (bs : List α) : ℕ → α := fun i => bs.getD i default

theorem ofList_slice [Inhabited α] (m : ℕ → α) {n i : ℕ} (h : i < n) :
    ofList (slice m 0 n) i = m i := by
  simp [ofList, List.getD_eq_getElem?_getD, getElem?_slice m 0 h]

theorem ofList_append_right [Inhabited α] (as bs : List α) (i : ℕ) :
    ofList (as ++ bs) (as.length + i) = ofList bs i := by
  rw [ofList, List.getD_eq_getElem?_getD, List.getElem?_append_right (Nat.le_add_right _ _),
    Nat.add_sub_cancel_left, ofList, List.getD_eq_getElem?_getD]

theorem slice_ofList_append [Inhabited α] (as bs cs : List α) :
    slice (ofList (as ++ (bs ++ cs))) as.length bs.length = bs := by
  apply List.ext_getElem
  · simp
  · intro i h1 h2
    have hget : (bs ++ cs)[i]? = some bs[i] := by
      rw [List.getElem?_append_left h2, List.getElem?_eq_getElem h2]
    simp only [slice, List.getElem_map, List.getElem_range, ofList_append_right]
    simp [ofList, List.getD_eq_getElem?_getD, hget]

end Memory
