import Mathlib.Data.List.OfFn
import Mathlib.Data.Nat.ModEq

/-!
# Rings that overwrite

An array of fixed size that is filled round and round. What is recorded overwrites what was recorded
`n` records before, so the array holds the last `n` elements of the log, or the whole log and blanks
while the log is shorter. A search goes through the array in its own order, which is not that of
the log.
-/

/-- An array and the place that is written next. -/
structure OverwriteRing (α : Type*) (n : ℕ) where
  slots : Fin n → α
  next : Fin n

namespace OverwriteRing

variable {α : Type*} {n : ℕ}

/-- The place behind `i`; behind the last one comes the first. -/
def succPlace (i : Fin n) : Fin n := ⟨(i + 1) % n, Nat.mod_lt _ (Fin.pos i)⟩

def record (r : OverwriteRing α n) (a : α) : OverwriteRing α n where
  slots := Function.update r.slots r.next a
  next := succPlace r.next

@[simp] theorem record_next (r : OverwriteRing α n) (a : α) :
    ((r.record a).next : ℕ) = (r.next + 1) % n := rfl

@[simp] theorem record_slots (r : OverwriteRing α n) (a : α) :
    (r.record a).slots = Function.update r.slots r.next a := rfl

/-- The first element with `p` in the order of the array. -/
def find (r : OverwriteRing α n) (p : α → Bool) : Option α := (List.ofFn r.slots).find? p

/-- The last `n` elements of a log. -/
def recent (n : ℕ) (log : List α) : List α := log.drop (log.length - n)

theorem recent_map {β : Type*} (f : α → β) (log : List α) :
    recent n (log.map f) = (recent n log).map f := by
  rw [recent, recent, List.length_map, List.map_drop]

theorem mem_recent {log : List α} {a : α} :
    a ∈ recent n log ↔ ∃ k, log.length ≤ k + n ∧ log[k]? = some a := by
  rw [recent, List.mem_iff_getElem?]
  constructor
  · rintro ⟨i, hi⟩
    rw [List.getElem?_drop] at hi
    exact ⟨log.length - n + i, by omega, hi⟩
  · rintro ⟨k, hk, ha⟩
    refine ⟨k - (log.length - n), ?_⟩
    rw [List.getElem?_drop, Nat.add_sub_cancel' (by omega)]
    exact ha

/-- The array after the records of `log`, when all its places held `blank` before. -/
structure Holds (r : OverwriteRing α n) (blank : α) (log : List α) : Prop where
  next_eq : (r.next : ℕ) = log.length % n
  slot_eq : ∀ (i : Fin n) (k : ℕ), k < log.length → log.length ≤ k + n → (i : ℕ) = k % n →
    log[k]? = some (r.slots i)
  blank_eq : ∀ i : Fin n, log.length ≤ i → r.slots i = blank

namespace Holds

variable {r : OverwriteRing α n} {blank a : α} {log : List α}

theorem nil (i : Fin n) (hi : (i : ℕ) = 0) : Holds ⟨fun _ => blank, i⟩ blank [] where
  next_eq := by simp [hi]
  slot_eq := by
    intro i k hk
    exact absurd hk (Nat.not_lt_zero k)
  blank_eq _ _ := rfl

/-- An older element that is kept is not in the place written next. -/
theorem ne_next (h : Holds r blank log) {i : Fin n} {k : ℕ} (hk : k < log.length)
    (hrecent : log.length < k + n) (hi : (i : ℕ) = k % n) : i ≠ r.next := by
  rintro rfl
  rw [h.next_eq] at hi
  have hdvd : n ∣ log.length - k := (Nat.modEq_iff_dvd' hk.le).mp hi.symm
  have hle := Nat.le_of_dvd (by omega) hdvd
  omega

theorem record (h : Holds r blank log) (a : α) : Holds (r.record a) blank (log ++ [a]) where
  next_eq := by
    rw [record_next, List.length_append, List.length_singleton, h.next_eq, Nat.mod_add_mod]
  slot_eq := by
    intro i k hk hrecent hi
    rw [List.length_append, List.length_singleton] at hk hrecent
    rw [record_slots]
    rcases Nat.lt_succ_iff_lt_or_eq.mp hk with hlt | rfl
    · rw [List.getElem?_append_left hlt, Function.update_of_ne (h.ne_next hlt (by omega) hi)]
      exact h.slot_eq i k hlt (by omega) hi
    · have hnext : i = r.next := Fin.ext (hi.trans h.next_eq.symm)
      rw [hnext, Function.update_self, List.getElem?_append_right le_rfl, Nat.sub_self]
      rfl
  blank_eq := by
    intro i hi
    rw [List.length_append, List.length_singleton] at hi
    have hne : i ≠ r.next := by
      rintro rfl
      rw [h.next_eq] at hi
      have := Nat.mod_le log.length n
      omega
    rw [record_slots, Function.update_of_ne hne]
    exact h.blank_eq i (by omega)

/-- A place holds one of the last elements, or it has never been written. -/
theorem slots_cases (h : Holds r blank log) (i : Fin n) :
    r.slots i ∈ recent n log ∨ log.length ≤ i ∧ r.slots i = blank := by
  by_cases hlen : log.length ≤ i
  · exact Or.inr ⟨hlen, h.blank_eq i hlen⟩
  · -- the last index of the log that falls on the place
    have hlt := Nat.mod_lt (log.length - 1 - i) (Fin.pos i)
    have hle := Nat.mod_le (log.length - 1 - i) n
    have hmod : (i : ℕ) = (log.length - 1 - (log.length - 1 - i) % n) % n := by
      have hdiv := Nat.div_add_mod (log.length - 1 - i) n
      have heq : log.length - 1 - (log.length - 1 - i) % n = i + n * ((log.length - 1 - i) / n) := by
        omega
      rw [heq, Nat.add_mul_mod_self_left, Nat.mod_eq_of_lt i.isLt]
    exact Or.inl (mem_recent.mpr ⟨log.length - 1 - (log.length - 1 - i) % n, by omega,
      h.slot_eq i _ (by omega) (by omega) hmod⟩)

theorem exists_slot (h : Holds r blank log) (ha : a ∈ recent n log) : ∃ i, r.slots i = a := by
  obtain ⟨k, hk, hget⟩ := mem_recent.mp ha
  have hlt : k < log.length := (List.getElem?_eq_some_iff.mp hget).1
  have hi := h.slot_eq ⟨k % n, Nat.mod_lt k (Fin.pos r.next)⟩ k hlt hk rfl
  exact ⟨_, Option.some.inj (hi.symm.trans hget)⟩

theorem find_eq_some {p : α → Bool} (h : Holds r blank log) (hfind : r.find p = some a) :
    p a = true ∧ (a ∈ recent n log ∨ log.length < n ∧ a = blank) := by
  refine ⟨List.find?_some hfind, ?_⟩
  obtain ⟨i, rfl⟩ := List.mem_ofFn.mp (List.mem_of_find?_eq_some hfind)
  rcases h.slots_cases i with hrecent | ⟨hlen, hblank⟩
  · exact Or.inl hrecent
  · exact Or.inr ⟨lt_of_le_of_lt hlen i.isLt, hblank⟩

/-- Whichever of the last elements has `p`, a search finds one. -/
theorem find_isSome {p : α → Bool} (h : Holds r blank log) (ha : a ∈ recent n log)
    (hp : p a = true) : (r.find p).isSome = true := by
  obtain ⟨i, rfl⟩ := h.exists_slot ha
  exact List.find?_isSome.mpr ⟨r.slots i, List.mem_ofFn.mpr ⟨i, rfl⟩, hp⟩

end Holds

end OverwriteRing
