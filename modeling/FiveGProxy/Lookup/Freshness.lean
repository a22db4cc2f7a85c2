import FiveGProxy.Lookup.Model
import Mathlib.Logic.Function.Basic

/-!
# Where a returned list comes from

A call returns what it has found in the cache, what its own `resolve` has answered, or the empty list
when its wait was in vain. Entries are put, overwritten, evicted and cleared in any order, and still
every list comes unchanged from the `resolve` of a call of the same key, and unless that is the call
itself, the entry has not expired at the time of the call.
-/

namespace FiveGProxy

open Steps

variable {K A : Type*}

/-- `resolve` has returned to the call. -/
def LookupPc.answered : LookupPc K A → Bool
  | put _ | remove _ | countDown _ | returned .. | thrown => true
  | read | register | await _ | reread .. | size | evict _ | invoke | resolving => false

/-- The lists that `resolve` has returned to the calls. -/
def recordAnswer (_ : DnsLookups K A) (e : LookupEvent K A) (answers : ℕ → Option (List A)) :
    ℕ → Option (List A) :=
  match e with
  | .answer c (some addresses) => Function.update answers c (some addresses)
  | _ => answers

namespace DnsLookups

/-- The entry is what a call of the key has put, and holds what its `resolve` returned. -/
def Source (cfg : LookupConfig) (s : DnsLookups K A) (answers : ℕ → Option (List A)) (key : K)
    (e : CacheEntry A) : Prop :=
  ∃ k, s.calls[e.origin]? = some k ∧ k.key = key ∧ k.pc.answered = true ∧
    answers e.origin = some e.addresses ∧ e = entryOf cfg e.origin k.nowMs e.addresses

def CallSourced (cfg : LookupConfig) (s : DnsLookups K A) (answers : ℕ → Option (List A)) (c : ℕ)
    (k : LookupCall K A) : Prop :=
  match k.pc with
  | .put addresses | .remove (some addresses) | .countDown (some addresses) =>
      answers c = some addresses
  | .returned addresses none => addresses = []
  | .returned addresses (some origin) => ∃ e, Source cfg s answers k.key e ∧
      e.addresses = addresses ∧ e.origin = origin ∧ (origin = c ∨ k.nowMs < e.expiresAt)
  | _ => True

structure Sourced [DecidableEq K] (cfg : LookupConfig) (s : DnsLookups K A)
    (answers : ℕ → Option (List A)) : Prop where
  cache : ∀ key e, s.cache.lookup key = some e → Source cfg s answers key e
  calls : ∀ c k, s.calls[c]? = some k → CallSourced cfg s answers c k

def Carries (s : DnsLookups K A) (answers : ℕ → Option (List A)) (t : DnsLookups K A)
    (answers' : ℕ → Option (List A)) : Prop :=
  ∀ o k, s.calls[o]? = some k → ∃ k', t.calls[o]? = some k' ∧ k'.key = k.key ∧ k'.nowMs = k.nowMs ∧
    (k.pc.answered = true → k'.pc.answered = true ∧ answers' o = answers o)

variable {cfg : LookupConfig} {s t : DnsLookups K A} {answers answers' : ℕ → Option (List A)} {c : ℕ}
  {k : LookupCall K A}

theorem Source.carry {key : K} {e : CacheEntry A} (h : Source cfg s answers key e)
    (hcarries : Carries s answers t answers') : Source cfg t answers' key e := by
  obtain ⟨k, hk, hkey, hanswered, hans, he⟩ := h
  obtain ⟨k', hk', hkey', hnow, hkept⟩ := hcarries e.origin k hk
  obtain ⟨hanswered', hans'⟩ := hkept hanswered
  exact ⟨k', hk', hkey'.trans hkey, hanswered', hans'.trans hans, by rw [hnow]; exact he⟩

theorem CallSourced.carry (h : CallSourced cfg s answers c k) (hk : s.calls[c]? = some k)
    (hcarries : Carries s answers t answers') : CallSourced cfg t answers' c k := by
  have hans : k.pc.answered = true → answers' c = answers c := by
    obtain ⟨k', -, -, -, hkept⟩ := hcarries c k hk
    exact fun hanswered => (hkept hanswered).2
  obtain ⟨key, nowMs, pc, latch⟩ := k
  cases pc with
  | put addresses => exact (hans rfl).trans h
  | remove result =>
      cases result with
      | some addresses => exact (hans rfl).trans h
      | none => trivial
  | countDown result =>
      cases result with
      | some addresses => exact (hans rfl).trans h
      | none => trivial
  | returned addresses origin =>
      cases origin with
      | none => exact h
      | some o =>
          obtain ⟨e, hsource, hrest⟩ := h
          exact ⟨e, hsource.carry hcarries, hrest⟩
  | _ => trivial

theorem carries_goto {s' : DnsLookups K A} {k' : LookupCall K A} {pc : LookupPc K A}
    (hk : s.calls[c]? = some k) (hcalls : s'.calls = s.calls) (hkey : k'.key = k.key)
    (hnow : k'.nowMs = k.nowMs) (hpc : k.pc.answered = true → pc.answered = true)
    (hans : ∀ o, o ≠ c ∨ k.pc.answered = true → answers' o = answers o) :
    Carries s answers (s'.goto c k' pc) answers' := by
  intro o l hl
  by_cases ho : o = c
  · subst ho
    obtain rfl := Option.some.inj (hk.symm.trans hl)
    exact ⟨_, goto_self (hcalls ▸ hk), hkey, hnow,
      fun hanswered => ⟨hpc hanswered, hans o (Or.inr hanswered)⟩⟩
  · exact ⟨l, (goto_of_ne ho).trans (hcalls ▸ hl), rfl, rfl,
      fun hanswered => ⟨hanswered, hans o (Or.inl ho)⟩⟩

variable [DecidableEq K]

theorem Sourced.init : Sourced cfg (.init : DnsLookups K A) fun _ => none where
  cache := by
    rintro key e ⟨⟩
  calls := by
    rintro c k ⟨⟩

theorem Sourced.keep (h : Sourced cfg s answers) (hcalls : t.calls = s.calls)
    (hcache : ∀ key e, t.cache.lookup key = some e → s.cache.lookup key = some e) :
    Sourced cfg t answers := by
  have hcarries : Carries s answers t answers :=
    fun o k hk => ⟨k, hcalls ▸ hk, rfl, rfl, fun hanswered => ⟨hanswered, rfl⟩⟩
  refine ⟨fun key e he => (h.cache key e (hcache key e he)).carry hcarries, fun c k hk => ?_⟩
  rw [hcalls] at hk
  exact (h.calls c k hk).carry hk hcarries

theorem Sourced.call (h : Sourced cfg s answers) (key : K) (nowMs : Int64) :
    Sourced cfg { s with calls := s.calls ++ [⟨key, nowMs, .read, false⟩] } answers := by
  have hcarries : Carries s answers { s with calls := s.calls ++ [⟨key, nowMs, .read, false⟩] }
      answers := fun o k hk =>
    ⟨k, append_calls_of_some hk, rfl, rfl, fun hanswered => ⟨hanswered, rfl⟩⟩
  refine ⟨fun key e he => (h.cache key e he).carry hcarries, fun c k hk => ?_⟩
  rcases append_calls hk with hold | ⟨-, rfl⟩
  · exact (h.calls c k hold).carry hold hcarries
  · trivial

/-- A call has gone on; what it now carries has a source, and so has an entry it has put. -/
theorem Sourced.goto {s' : DnsLookups K A} {k' : LookupCall K A} {pc : LookupPc K A}
    (h : Sourced cfg s answers) (hk : s.calls[c]? = some k) (hcalls : s'.calls = s.calls)
    (hcarries : Carries s answers (s'.goto c k' pc) answers')
    (hcache : ∀ key e, s'.cache.lookup key = some e →
      s.cache.lookup key = some e ∨ Source cfg (s'.goto c k' pc) answers' key e)
    (hcond : CallSourced cfg (s'.goto c k' pc) answers' c { k' with pc := pc }) :
    Sourced cfg (s'.goto c k' pc) answers' := by
  constructor
  · intro key e he
    rcases hcache key e he with hold | hnew
    · exact (h.cache key e hold).carry hcarries
    · exact hnew
  · intro d l hl
    rcases goto_calls (hcalls ▸ hk) hl with ⟨rfl, rfl⟩ | ⟨-, hold⟩
    · exact hcond
    · exact (h.calls d l (hcalls ▸ hold)).carry (hcalls ▸ hold) hcarries

theorem Sourced.hit (h : Sourced cfg s answers) {e : CacheEntry A} (he : s.hit k = some e) :
    Source cfg s answers k.key e ∧ k.nowMs < e.expiresAt := by
  obtain ⟨hlookup, hfresh⟩ := Option.filter_eq_some_iff.mp he
  exact ⟨h.cache k.key e hlookup, of_decide_eq_true hfresh⟩

theorem Sourced.step {e : LookupEvent K A} (h : Sourced cfg s answers) (hstep : s.step cfg e = some t) :
    Sourced cfg t (recordAnswer s e answers) := by
  have hgo : ∀ {s' : DnsLookups K A} {c : ℕ} {k : LookupCall K A} {pc : LookupPc K A},
      s.calls[c]? = some k → s'.calls = s.calls →
        (∀ key e, s'.cache.lookup key = some e → s.cache.lookup key = some e) →
          (k.pc.answered = true → pc.answered = true) →
            CallSourced cfg (s'.goto c k pc) answers c { k with pc := pc } →
              Sourced cfg (s'.goto c k pc) answers := by
    intro s' c k pc hk hcalls hcache hpc hcond
    exact h.goto hk hcalls (carries_goto hk hcalls rfl rfl hpc fun _ _ => rfl)
      (fun key e he => Or.inl (hcache key e he)) hcond
  have herase : ∀ key' key e, (s.cache.erase key').lookup key = some e →
      s.cache.lookup key = some e := fun key' _ _ he => lookup_of_lookup_erase key' he
  have hreturn : ∀ {c : ℕ} {k : LookupCall K A} {e : CacheEntry A}, s.calls[c]? = some k →
      k.pc.answered = false → s.hit k = some e →
        Sourced cfg (s.goto c k (.returned e.addresses (some e.origin))) answers := by
    intro c k e hk hpc he
    obtain ⟨hsource, hfresh⟩ := h.hit he
    refine hgo hk rfl (fun _ _ he => he) (fun hanswered => rfl) ?_
    refine ⟨e, hsource.carry ?_, rfl, rfl, Or.inr hfresh⟩
    exact carries_goto hk rfl rfl rfl (fun _ => rfl) fun _ _ => rfl
  cases transition_of_step hstep with
  | call key nowMs => exact h.call key nowMs
  | hit c k e hk hpc he => exact hreturn hk (by rw [hpc]; rfl) he
  | rehit c k leader inTime e hk hpc he => exact hreturn hk (by rw [hpc]; rfl) he
  | miss c k hk hpc | follow c k leader hk hpc hin | lead c k hk hpc
  | wake c k leader inTime hk hpc hlatch | full c n k hk hpc | room c n k hk hpc
  | swept c k hk hpc | invoke c k hk hpc =>
      exact hgo hk rfl (fun _ _ he => he) (by rw [hpc]; rintro ⟨⟩) trivial
  | remiss c k leader inTime hk hpc he =>
      exact hgo hk rfl (fun _ _ he => he) (fun _ => rfl) rfl
  | sweep c key k todo hk hpc =>
      exact hgo hk rfl (herase key) (by rw [hpc]; rintro ⟨⟩) trivial
  | answered c k addresses hk hpc =>
      refine h.goto hk rfl (carries_goto hk rfl rfl rfl (fun _ => rfl) ?_)
        (fun _ _ he => Or.inl he) (Function.update_self ..)
      rintro o (hne | hanswered)
      · exact Function.update_of_ne hne _ _
      · rw [hpc] at hanswered
        cases hanswered
  | threw c k hk hpc => exact hgo hk rfl (fun _ _ he => he) (fun _ => rfl) trivial
  | put c k addresses hk hpc =>
      have hans : answers c = some addresses := by
        have hcall := h.calls c k hk
        rwa [CallSourced, hpc] at hcall
      refine h.goto hk rfl (carries_goto hk rfl rfl rfl (fun _ => rfl) fun _ _ => rfl) ?_ hans
      intro key e he
      by_cases hkey : key = k.key
      · subst hkey
        rw [AList.lookup_insert, Option.some.injEq] at he
        subst he
        exact Or.inr ⟨_, goto_self hk, rfl, rfl, hans, rfl⟩
      · rw [AList.lookup_insert_ne hkey] at he
        exact Or.inl he
  | removed c k result hk hpc | kept c k result hk hpc =>
      have hcall := h.calls c k hk
      rw [CallSourced, hpc] at hcall
      refine hgo hk rfl (fun _ _ he => he) (fun _ => rfl) ?_
      cases result with
      | some addresses => exact hcall
      | none => trivial
  | countDown c k addresses hk hpc =>
      have hans : answers c = some addresses := by
        have hcall := h.calls c k hk
        rwa [CallSourced, hpc] at hcall
      refine h.goto hk rfl (carries_goto hk rfl rfl rfl (fun _ => rfl) fun _ _ => rfl)
        (fun _ _ he => Or.inl he) ?_
      exact ⟨entryOf cfg c k.nowMs addresses, ⟨_, goto_self hk, rfl, rfl, hans, rfl⟩, rfl, rfl,
        Or.inl rfl⟩
  | thrown c k hk hpc =>
      exact h.goto hk rfl (carries_goto hk rfl rfl rfl (fun _ => rfl) fun _ _ => rfl)
        (fun _ _ he => Or.inl he) trivial
  | sweepCache d key todo hd => exact h.keep rfl (herase key)
  | clear | sweepInFlight d key todo hd | toInFlight d hd | cleared d hd =>
      exact h.keep rfl fun _ _ he => he

end DnsLookups

open DnsLookups

/-- In every run, a call that has returned either gives up with the empty list, or returns what the
`resolve` of a call of its key has answered, and when that is another call, its time and the lifetime
of the list, which is shorter for an empty one, lie after the time of the call. -/
theorem returned_list_fresh [DecidableEq K] (cfg : LookupConfig) {es : List (LookupEvent K A)}
    {s : DnsLookups K A} {answers : ℕ → Option (List A)}
    (hrun : run (record (DnsLookups.step cfg) recordAnswer) (.init, fun _ => none) es =
      some (s, answers)) {c : ℕ} {k : LookupCall K A} {addresses : List A} {origin : Option ℕ}
    (hk : s.calls[c]? = some k) (hpc : k.pc = .returned addresses origin) :
    origin = none ∧ addresses = [] ∨
      ∃ o leader, origin = some o ∧ s.calls[o]? = some leader ∧ leader.key = k.key ∧
        answers o = some addresses ∧
          (o = c ∨ k.nowMs < (entryOf cfg o leader.nowMs addresses).expiresAt) := by
  have h : Sourced cfg s answers :=
    record_invariant (fun _ _ _ _ h hstep => h.step hstep) Sourced.init hrun
  have hcall := h.calls c k hk
  rw [CallSourced, hpc] at hcall
  cases origin with
  | none => exact Or.inl ⟨rfl, hcall⟩
  | some o =>
      obtain ⟨e, ⟨leader, hleader, hkey, -, hans, he⟩, rfl, rfl, hfresh⟩ := hcall
      exact Or.inr ⟨e.origin, leader, rfl, hleader, hkey, hans, by rw [← he]; exact hfresh⟩

/-- A call answers itself, and one of the same key finds the list four minutes later. -/
def lookUpLater : List (LookupEvent ℕ ℕ) :=
  List.flatten [[.call 1 0], List.replicate 2 (.go 0), [.size 0 0, .go 0, .answer 0 (some [7])],
    List.replicate 3 (.go 0), [.call 1 240000, .go 1]]

theorem returned_list_fresh_later :
    ∃ s answers, run (record (DnsLookups.step {}) recordAnswer) (.init, fun _ => none) lookUpLater =
        some (s, answers) ∧ s.calls[1]? = some ⟨1, 240000, .returned [7] (some 0), false⟩ ∧
      ((some 0 : Option ℕ) = none ∧ [7] = [] ∨ ∃ o leader, some 0 = some o ∧
        s.calls[o]? = some leader ∧ leader.key = 1 ∧ answers o = some [7] ∧
          (o = 1 ∨ (240000 : Int64) < (entryOf {} o leader.nowMs [7]).expiresAt)) := by
  obtain ⟨⟨s, answers⟩, hrun, hreturned⟩ : ∃ p : DnsLookups ℕ ℕ × (ℕ → Option (List ℕ)),
      run (record (DnsLookups.step {}) recordAnswer) (.init, fun _ => none) lookUpLater = some p ∧
        p.1.calls[1]? = some ⟨1, 240000, .returned [7] (some 0), false⟩ :=
    exists_run_of_any (by decide +kernel)
  exact ⟨s, answers, hrun, hreturned, returned_list_fresh {} hrun hreturned rfl⟩

end FiveGProxy
