import Mathlib.Data.List.Basic
import Mathlib.Data.List.Infix

/-!
# Streams of length-prefixed frames

A frame is a two-cell length field and a body. `lenOf a b` is the body length announced by the
field `a b`, or `none` when the field is a violation, after which nothing is read any more.

`decode` reads a whole stream at once. `Reader` is the state of an incremental reader that is
given the stream cell by cell, and `feed` gives it a list of cells. `feed_append` says that the
result does not depend on how the stream is cut, and `feed_eq_decode` that it is what `decode`
finds, so an implementation that reads in pieces only has to be compared with `feed`.
-/

namespace LengthPrefixed

variable {α : Type*}

/-- What has been read of a stream: the bodies of its complete frames in order, and whether a
length field that is a violation was met. -/
structure Decoded (α : Type*) where
  bodies : List (List α)
  violated : Bool

def decode (lenOf : α → α → Option ℕ) : List α → Decoded α
  | a :: b :: rest =>
      match lenOf a b with
      | none => ⟨[], true⟩
      | some n =>
          if n ≤ rest.length then
            ⟨rest.take n :: (decode lenOf (rest.drop n)).bodies,
              (decode lenOf (rest.drop n)).violated⟩
          else ⟨[], false⟩
  | _ => ⟨[], false⟩
termination_by s => s.length
decreasing_by all_goals simp only [List.length_drop, List.length_cons]; omega

/-- An incremental reader: in the length field, in the body of a frame of length `n` of which
`got` is there, or stopped by a violation. -/
inductive Reader (α : Type*) where
  | field (first : Option α)
  | body (n : ℕ) (got : List α)
  | stopped

def enter (n : ℕ) : Reader α × List (List α) :=
  if n = 0 then (.field none, [[]]) else (.body n [], [])

/-- Gives one cell to the reader; the second component is what it completes. -/
def feed1 (lenOf : α → α → Option ℕ) : Reader α → α → Reader α × List (List α)
  | .field none, a => (.field (some a), [])
  | .field (some a), b =>
      match lenOf a b with
      | none => (.stopped, [])
      | some n => enter n
  | .body n got, a =>
      if got.length + 1 < n then (.body n (got ++ [a]), [])
      else (.field none, [got ++ [a]])
  | .stopped, _ => (.stopped, [])

def feed (lenOf : α → α → Option ℕ) : Reader α → List α → Reader α × List (List α)
  | r, [] => (r, [])
  | r, a :: as =>
      ((feed lenOf (feed1 lenOf r a).1 as).1,
        (feed1 lenOf r a).2 ++ (feed lenOf (feed1 lenOf r a).1 as).2)

variable (lenOf : α → α → Option ℕ)

@[simp] theorem feed_nil (r : Reader α) : feed lenOf r [] = (r, []) := rfl

theorem feed_cons (r : Reader α) (a : α) (as : List α) :
    feed lenOf r (a :: as) =
      ((feed lenOf (feed1 lenOf r a).1 as).1,
        (feed1 lenOf r a).2 ++ (feed lenOf (feed1 lenOf r a).1 as).2) := rfl

@[simp] theorem feed1_stopped (a : α) : feed1 lenOf .stopped a = (.stopped, []) := rfl

@[simp] theorem feed_singleton (r : Reader α) (a : α) : feed lenOf r [a] = feed1 lenOf r a := by
  simp [feed_cons]

theorem feed_append (r : Reader α) (as bs : List α) :
    feed lenOf r (as ++ bs) =
      ((feed lenOf (feed lenOf r as).1 bs).1,
        (feed lenOf r as).2 ++ (feed lenOf (feed lenOf r as).1 bs).2) := by
  induction as generalizing r with
  | nil => simp
  | cons a as ih =>
      rw [List.cons_append, feed_cons, feed_cons, ih, List.append_assoc]

@[simp] theorem feed_stopped (as : List α) : feed lenOf .stopped as = (.stopped, []) := by
  induction as with
  | nil => rfl
  | cons a as ih => rw [feed_cons, feed1_stopped, ih]; rfl

theorem feed_body_of_lt {n : ℕ} {got as : List α} (h : got.length + as.length < n) :
    feed lenOf (.body n got) as = (.body n (got ++ as), []) := by
  induction as generalizing got with
  | nil => simp
  | cons a as ih =>
      rw [List.length_cons] at h
      have h1 : got.length + 1 < n := by omega
      have h2 : (got ++ [a]).length + as.length < n := by
        rw [List.length_append, List.length_singleton]
        omega
      rw [feed_cons, feed1, if_pos h1, ih h2]
      simp

theorem feed_body_of_eq {n : ℕ} {got as : List α} (hn : got.length < n)
    (h : got.length + as.length = n) :
    feed lenOf (.body n got) as = (.field none, [got ++ as]) := by
  have hne : as ≠ [] := by
    rintro rfl
    simp at h
    omega
  obtain ⟨bs, b, rfl⟩ := (List.eq_nil_or_concat' as).resolve_left hne
  have hlt : got.length + bs.length < n := by simp at h; omega
  have hge : ¬ (got ++ bs).length + 1 < n := by simp at h ⊢; omega
  rw [feed_append, feed_body_of_lt lenOf hlt, feed_singleton]
  simp only [feed1, if_neg hge]
  simp

theorem feed_frame {a b : α} {n : ℕ} (hab : lenOf a b = some n) {body : List α}
    (hbody : body.length = n) :
    feed lenOf (.field none) (a :: b :: body) = (.field none, [body]) := by
  have hfield : feed lenOf (.field none) (a :: b :: body) =
      ((feed lenOf (enter n).1 body).1, (enter n).2 ++ (feed lenOf (enter n).1 body).2) := by
    simp [feed_cons, feed1, hab]
  rw [hfield]
  by_cases hn : n = 0
  · subst hn
    obtain rfl := List.length_eq_zero_iff.mp hbody
    simp [enter]
  · rw [enter, if_neg hn]
    rw [feed_body_of_eq lenOf (by simp; omega) (by simpa using hbody)]
    simp

def Reader.isStopped : Reader α → Bool
  | .stopped => true
  | _ => false

/-- Reading cell by cell from the start of a stream finds what reading it at once finds. -/
theorem feed_eq_decode (s : List α) :
    (feed lenOf (.field none) s).2 = (decode lenOf s).bodies ∧
      (feed lenOf (.field none) s).1.isStopped = (decode lenOf s).violated := by
  induction s using decode.induct lenOf with
  | case1 a b rest hab =>
      simp [decode, hab, feed_cons, feed1, Reader.isStopped]
  | case2 a b rest n hab hn ih =>
      have hlen : (rest.take n).length = n := by simp [hn]
      have hsplit : a :: b :: rest = (a :: b :: rest.take n) ++ rest.drop n := by simp
      have hfeed : feed lenOf (.field none) (a :: b :: rest) =
          ((feed lenOf (.field none) (rest.drop n)).1,
            rest.take n :: (feed lenOf (.field none) (rest.drop n)).2) := by
        rw [hsplit, feed_append, feed_frame lenOf hab hlen]
        rfl
      rw [hfeed, decode, hab]
      simp only [if_pos hn]
      exact ⟨by rw [ih.1], ih.2⟩
  | case3 a b rest n hab hn =>
      have hn0 : n ≠ 0 := by omega
      have hlt : ([] : List α).length + rest.length < n := by simpa using hn
      simp [decode, hab, hn, feed_cons, feed1, enter, hn0, feed_body_of_lt lenOf hlt,
        Reader.isStopped]
  | case4 s hs =>
      rcases s with _ | ⟨a, _ | ⟨b, rest⟩⟩
      · simp [decode, Reader.isStopped]
      · simp [decode, feed_cons, feed1, Reader.isStopped]
      · exact (hs a b rest rfl).elim

theorem decode_bodies_mono {s t : List α} (h : s <+: t) :
    (decode lenOf s).bodies <+: (decode lenOf t).bodies := by
  obtain ⟨rest, rfl⟩ := h
  rw [← (feed_eq_decode lenOf s).1, ← (feed_eq_decode lenOf (s ++ rest)).1, feed_append]
  exact List.prefix_append _ _

theorem decode_append_of_violated {s : List α} (h : (decode lenOf s).violated = true)
    (rest : List α) : decode lenOf (s ++ rest) = decode lenOf s := by
  have hs := feed_eq_decode lenOf s
  have ht := feed_eq_decode lenOf (s ++ rest)
  have hstop : (feed lenOf (.field none) s).1 = .stopped := by
    have h1 := hs.2.trans h
    revert h1
    cases (feed lenOf (.field none) s).1 <;> simp [Reader.isStopped]
  rw [feed_append, hstop, feed_stopped] at ht
  have hbodies : (decode lenOf (s ++ rest)).bodies = (decode lenOf s).bodies := by
    rw [← ht.1, ← hs.1]
    simp
  have hviolated : (decode lenOf (s ++ rest)).violated = (decode lenOf s).violated := by
    rw [← ht.2, h]
    rfl
  cases hd : decode lenOf (s ++ rest)
  cases hd' : decode lenOf s
  simp_all

theorem decode_flatten {frame : List α → List α} {bodies : List (List α)}
    (h : ∀ body ∈ bodies, ∃ a b, frame body = a :: b :: body ∧ lenOf a b = some body.length) :
    decode lenOf (bodies.map frame).flatten = ⟨bodies, false⟩ := by
  have key : feed lenOf (.field none) (bodies.map frame).flatten = (.field none, bodies) := by
    induction bodies with
    | nil => rfl
    | cons body bodies ih =>
        obtain ⟨a, b, hframe, hab⟩ := h body List.mem_cons_self
        have ih' := ih fun body hbody => h body (List.mem_cons_of_mem _ hbody)
        rw [List.map_cons, List.flatten_cons, feed_append, hframe,
          feed_frame lenOf hab rfl, ih']
        rfl
  have hdecode := feed_eq_decode lenOf (bodies.map frame).flatten
  rw [key] at hdecode
  cases hd : decode lenOf (bodies.map frame).flatten
  simp_all [Reader.isStopped]

end LengthPrefixed
