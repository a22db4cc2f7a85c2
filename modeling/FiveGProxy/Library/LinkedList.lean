import Mathlib.Data.List.Basic
import Mathlib.Data.List.Nodup
import Mathlib.Logic.Function.Basic

/-!
# Doubly linked lists

The nodes carry a pointer to the next and one to the previous node, and `head` points to the first.
`IsList l xs` says that the pointers form the list `xs`; nodes outside of it may point anywhere.
`pushFront` and `unlink` change the pointers only, and `IsList` follows them.
-/

/-- The pointers; `none` is the null pointer. -/
structure Links (α : Type*) where
  head : Option α
  next : α → Option α
  prev : α → Option α

namespace Links

variable {α : Type*}

def Alone (l : Links α) (a : α) : Prop := l.next a = none ∧ l.prev a = none

/-- The pointers form the list. -/
structure IsList (l : Links α) (xs : List α) : Prop where
  head_eq : l.head = xs.head?
  nodup : xs.Nodup
  prev_eq : ∀ pre a post, xs = pre ++ a :: post → l.prev a = pre.getLast?
  next_eq : ∀ pre a post, xs = pre ++ a :: post → l.next a = post.head?

variable {l : Links α} {xs : List α} {a b : α}

theorem IsList.congr {l' : Links α} (h : l.IsList xs) (hhead : l'.head = l.head)
    (hnext : ∀ a ∈ xs, l'.next a = l.next a) (hprev : ∀ a ∈ xs, l'.prev a = l.prev a) :
    l'.IsList xs where
  head_eq := hhead.trans h.head_eq
  nodup := h.nodup
  prev_eq pre a post hxs := (hprev a (by simp [hxs])).trans (h.prev_eq pre a post hxs)
  next_eq pre a post hxs := (hnext a (by simp [hxs])).trans (h.next_eq pre a post hxs)

theorem IsList.mem_of_prev (h : l.IsList xs) (ha : a ∈ xs) (hb : l.prev a = some b) : b ∈ xs := by
  obtain ⟨pre, post, rfl⟩ := List.append_of_mem ha
  rw [h.prev_eq pre a post rfl] at hb
  exact List.mem_append_left _ (List.mem_of_getLast? hb)

theorem IsList.mem_of_next (h : l.IsList xs) (ha : a ∈ xs) (hb : l.next a = some b) : b ∈ xs := by
  obtain ⟨pre, post, rfl⟩ := List.append_of_mem ha
  rw [h.next_eq pre a post rfl] at hb
  exact List.mem_append_right _ (List.mem_cons_of_mem _ (List.mem_of_head? hb))

theorem append_eq_append_cons {pre post pre' post' : List α} {c : α}
    (h : pre ++ post = pre' ++ c :: post') :
    (∃ mid, pre' = pre ++ mid ∧ post = mid ++ c :: post') ∨
      ∃ mid, pre = pre' ++ c :: mid ∧ post' = mid ++ post := by
  rcases List.append_eq_append_iff.mp h with hpost | ⟨mid, hpre, hmid⟩
  · exact Or.inl hpost
  · cases mid with
    | nil => exact Or.inl ⟨[], by simpa using hpre.symm, hmid.symm⟩
    | cons d mid =>
        obtain ⟨rfl, hpost⟩ := List.cons.inj hmid
        exact Or.inr ⟨mid, hpre, hpost⟩

/-! ### Writing to a node outside of the list -/

variable [DecidableEq α]

def write (l : Links α) (a : α) (next prev : Option α) : Links α where
  head := l.head
  next := Function.update l.next a next
  prev := Function.update l.prev a prev

theorem IsList.write (h : l.IsList xs) (ha : a ∉ xs) (next prev : Option α) :
    (l.write a next prev).IsList xs := by
  have hne : ∀ b ∈ xs, b ≠ a := by
    rintro b hb rfl
    exact ha hb
  exact h.congr rfl (fun b hb => Function.update_of_ne (hne b hb) ..)
    fun b hb => Function.update_of_ne (hne b hb) ..

theorem Alone.write (h : l.Alone b) (hba : b ≠ a) (next prev : Option α) :
    (l.write a next prev).Alone b :=
  ⟨(Function.update_of_ne hba ..).trans h.1, (Function.update_of_ne hba ..).trans h.2⟩

theorem alone_write (l : Links α) (a : α) : (l.write a none none).Alone a :=
  ⟨Function.update_self .., Function.update_self ..⟩

/-! ### Putting a node in front -/

def pushFront (l : Links α) (a : α) : Links α where
  head := some a
  next := Function.update l.next a l.head
  prev :=
    match l.head with
    | none => Function.update l.prev a none
    | some b => Function.update (Function.update l.prev a none) b (some a)

theorem pushFront_next_of_ne (hb : b ≠ a) : (l.pushFront a).next b = l.next b :=
  Function.update_of_ne hb ..

theorem pushFront_prev_of_ne (hb : b ≠ a) (hhead : l.head ≠ some b) :
    (l.pushFront a).prev b = l.prev b := by
  unfold pushFront
  cases hl : l.head with
  | none => exact Function.update_of_ne hb ..
  | some c =>
      have hbc : b ≠ c := fun heq => hhead (heq ▸ hl)
      exact (Function.update_of_ne hbc ..).trans (Function.update_of_ne hb ..)

theorem IsList.pushFront (h : l.IsList xs) (ha : a ∉ xs) : (l.pushFront a).IsList (a :: xs) where
  head_eq := rfl
  nodup := List.nodup_cons.mpr ⟨ha, h.nodup⟩
  prev_eq pre b post hxs := by
    cases pre with
    | nil =>
        obtain ⟨rfl, rfl⟩ := List.cons.inj hxs
        show (match l.head with
          | none => Function.update l.prev a none
          | some b => Function.update (Function.update l.prev a none) b (some a)) a = none
        cases hl : l.head with
        | none => exact Function.update_self ..
        | some c =>
            have hc : c ∈ xs := List.mem_of_head? (h.head_eq.symm.trans hl)
            have hac : a ≠ c := fun heq => ha (heq ▸ hc)
            exact (Function.update_of_ne hac ..).trans (Function.update_self ..)
    | cons x pre =>
        obtain ⟨rfl, rfl⟩ := List.cons.inj hxs
        have hba : b ≠ a := by
          rintro rfl
          exact ha (by simp)
        cases pre with
        | nil =>
            have hhead : l.head = some b := h.head_eq
            simp only [Links.pushFront, hhead, Function.update_self]
            rfl
        | cons y pre =>
            have hby : l.head ≠ some b := by
              rw [h.head_eq]
              intro heq
              obtain rfl : y = b := Option.some.inj heq
              have hnodup := h.nodup
              simp at hnodup
            rw [pushFront_prev_of_ne hba hby, h.prev_eq (y :: pre) b post rfl]
            rfl
  next_eq pre b post hxs := by
    cases pre with
    | nil =>
        obtain ⟨rfl, rfl⟩ := List.cons.inj hxs
        exact (Function.update_self ..).trans h.head_eq
    | cons x pre =>
        obtain ⟨rfl, rfl⟩ := List.cons.inj hxs
        have hba : b ≠ a := by
          rintro rfl
          exact ha (by simp)
        rw [pushFront_next_of_ne hba, h.next_eq pre b post rfl]

theorem IsList.alone_pushFront (h : l.IsList xs) (hba : b ≠ a) (hb : b ∉ xs) (halone : l.Alone b) :
    (l.pushFront a).Alone b := by
  have hhead : l.head ≠ some b := by
    rw [h.head_eq]
    exact fun heq => hb (List.mem_of_head? heq)
  exact ⟨(pushFront_next_of_ne hba).trans halone.1, (pushFront_prev_of_ne hba hhead).trans halone.2⟩

/-! ### Taking a node out -/

/-- Makes the neighbours of a node point past it, and clears its own pointers. -/
def unlink (l : Links α) (a : α) : Links α where
  head := if (l.prev a).isSome then l.head else l.next a
  next :=
    match l.prev a with
    | some p => Function.update (Function.update l.next p (l.next a)) a none
    | none => Function.update l.next a none
  prev :=
    match l.next a with
    | some n => Function.update (Function.update l.prev n (l.prev a)) a none
    | none => Function.update l.prev a none

theorem unlink_next_of_ne (hb : b ≠ a) (hprev : l.prev a ≠ some b) :
    (l.unlink a).next b = l.next b := by
  unfold unlink
  cases hl : l.prev a with
  | none => exact Function.update_of_ne hb ..
  | some p =>
      have hbp : b ≠ p := fun heq => hprev (heq ▸ hl)
      exact (Function.update_of_ne hb ..).trans (Function.update_of_ne hbp ..)

theorem unlink_prev_of_ne (hb : b ≠ a) (hnext : l.next a ≠ some b) :
    (l.unlink a).prev b = l.prev b := by
  unfold unlink
  cases hl : l.next a with
  | none => exact Function.update_of_ne hb ..
  | some n =>
      have hbn : b ≠ n := fun heq => hnext (heq ▸ hl)
      exact (Function.update_of_ne hb ..).trans (Function.update_of_ne hbn ..)

theorem alone_unlink (l : Links α) (a : α) : (l.unlink a).Alone a := by
  unfold Alone unlink
  constructor
  · cases l.prev a <;> exact Function.update_self ..
  · cases l.next a <;> exact Function.update_self ..

variable {pre post pre' post' : List α} {c : α}

theorem IsList.unlink_head (h : l.IsList (pre ++ a :: post)) :
    (l.unlink a).head = (pre ++ post).head? := by
  show (if (l.prev a).isSome then l.head else l.next a) = _
  rw [h.prev_eq pre a post rfl, h.next_eq pre a post rfl, h.head_eq]
  cases pre with
  | nil => rfl
  | cons x pre => simp

theorem IsList.unlink_prev (h : l.IsList (pre ++ a :: post))
    (hsplit : pre ++ post = pre' ++ c :: post') (hca : c ≠ a) :
    (l.unlink a).prev c = pre'.getLast? := by
  have hnext := h.next_eq pre a post rfl
  rcases append_eq_append_cons hsplit with ⟨mid, rfl, rfl⟩ | ⟨mid, rfl, rfl⟩
  · cases mid with
    | nil =>
        have hc : l.next a = some c := hnext
        unfold Links.unlink
        simp only [hc]
        rw [Function.update_of_ne hca, Function.update_self, h.prev_eq pre a _ rfl]
        simp
    | cons m mid =>
        have hne : l.next a ≠ some c := by
          rw [hnext]
          intro heq
          obtain rfl : m = c := Option.some.inj heq
          have hnodup := h.nodup
          simp [List.nodup_append] at hnodup
        rw [unlink_prev_of_ne hca hne,
          h.prev_eq (pre ++ a :: m :: mid) c post' (by simp)]
        simp
  · have hne : l.next a ≠ some c := by
      rw [hnext]
      intro heq
      have hc : c ∈ post := List.mem_of_head? heq
      have hnodup := h.nodup
      simp [List.nodup_append] at hnodup
      grind -ring -linarith -order -ac
    rw [unlink_prev_of_ne hca hne, h.prev_eq pre' c (mid ++ a :: post) (by simp)]

theorem IsList.unlink_next (h : l.IsList (pre ++ a :: post))
    (hsplit : pre ++ post = pre' ++ c :: post') (hca : c ≠ a) :
    (l.unlink a).next c = post'.head? := by
  have hprev := h.prev_eq pre a post rfl
  rcases append_eq_append_cons hsplit with ⟨mid, rfl, rfl⟩ | ⟨mid, rfl, rfl⟩
  · have hne : l.prev a ≠ some c := by
      rw [hprev]
      intro heq
      have hc : c ∈ pre := List.mem_of_getLast? heq
      have hnodup := h.nodup
      simp [List.nodup_append] at hnodup
      grind -ring -linarith -order -ac
    rw [unlink_next_of_ne hca hne, h.next_eq (pre ++ a :: mid) c post' (by simp)]
  · cases mid with
    | nil =>
        have hc : l.prev a = some c := hprev.trans (by simp)
        unfold Links.unlink
        simp only [hc]
        rw [Function.update_of_ne hca, Function.update_self, h.next_eq _ a post rfl]
        rfl
    | cons m mid =>
        have hne : l.prev a ≠ some c := by
          rw [hprev]
          intro heq
          have hc : c ∈ m :: mid := List.mem_of_getLast? (by simpa using heq)
          have hnodup := h.nodup
          simp [List.nodup_append] at hnodup
          grind -ring -linarith -order -ac
        rw [unlink_next_of_ne hca hne, h.next_eq pre' c (m :: mid ++ a :: post) (by simp)]
        rfl

theorem IsList.unlink (h : l.IsList (pre ++ a :: post)) :
    (l.unlink a).IsList (pre ++ post) := by
  have hnodup := h.nodup
  rw [List.nodup_middle, List.nodup_cons] at hnodup
  obtain ⟨ha, hrest⟩ := hnodup
  have hne : ∀ pre' c post', pre ++ post = pre' ++ c :: post' → c ≠ a := by
    rintro pre' c post' hsplit rfl
    exact ha (by simp [hsplit])
  exact ⟨h.unlink_head, hrest,
    fun pre' c post' hsplit => h.unlink_prev hsplit (hne pre' c post' hsplit),
    fun pre' c post' hsplit => h.unlink_next hsplit (hne pre' c post' hsplit)⟩

theorem IsList.unlink_of_mem (h : l.IsList xs) (ha : a ∈ xs) : (l.unlink a).IsList (xs.erase a) := by
  obtain ⟨pre, post, rfl⟩ := List.append_of_mem ha
  have hpre : a ∉ pre := fun hmem => by
    have hnodup := h.nodup
    rw [List.nodup_middle, List.nodup_cons] at hnodup
    exact hnodup.1 (List.mem_append_left _ hmem)
  rw [List.erase_append_right _ hpre, List.erase_cons_head]
  exact h.unlink

theorem IsList.alone_unlink_of_not_mem (h : l.IsList xs) (ha : a ∈ xs) (hb : b ∉ xs)
    (halone : l.Alone b) : (l.unlink a).Alone b := by
  have hba : b ≠ a := by
    rintro rfl
    exact hb ha
  exact ⟨(unlink_next_of_ne hba fun heq => hb (h.mem_of_prev ha heq)).trans halone.1,
    (unlink_prev_of_ne hba fun heq => hb (h.mem_of_next ha heq)).trans halone.2⟩

end Links
