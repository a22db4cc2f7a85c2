import FiveGProxy.Lookup.Followers

/-!
# One leader for each key

A leader puts its latch into `inFlight` and takes it out again, unless it is no longer there. Each
marker therefore belongs to a leader that is still under way, whatever `clear` and the other leaders
do, and as long as no `clear` takes out markers no second leader of the key starts.
-/

namespace FiveGProxy

open Steps

variable {K A : Type*}

/-- The call has put its latch into `inFlight` and has not been at its `remove`; `resolve` runs in
between. -/
def LookupPc.leads : LookupPc K A → Bool
  | size | evict _ | invoke | resolving | put _ | remove _ => true
  | _ => false

theorem LookupPc.not_done_of_leads {pc : LookupPc K A} (h : pc.leads = true) : pc.done = false := by
  cases pc with
  | size | evict | invoke | resolving | put | remove => rfl
  | _ => cases h

/-- A step of `clear`. -/
def LookupEvent.ofClear : LookupEvent K A → Bool
  | clear | sweepClear .. | goClear _ => true
  | _ => false

namespace DnsLookups

/-- Call `c` is a leader that has not been at its `remove`. -/
def Leads (s : DnsLookups K A) (c : ℕ) : Prop := ∃ k, s.calls[c]? = some k ∧ k.pc.leads = true

section

variable {s t : DnsLookups K A} {c : ℕ} {k : LookupCall K A}

/-- The step of a call that neither registers nor unregisters. -/
structure Advances (s t : DnsLookups K A) : Prop where
  inFlight : t.inFlight = s.inFlight
  calls : ∀ (c : ℕ) (k : LookupCall K A), t.calls[c]? = some k → k.pc.leads = true →
    ∃ l, s.calls[c]? = some l ∧ l.key = k.key ∧ l.pc.leads = true
  leads : ∀ (c : ℕ) (k : LookupCall K A), s.calls[c]? = some k → k.pc.leads = true →
    ∃ l, t.calls[c]? = some l ∧ l.key = k.key ∧ l.pc.leads = true

theorem advances_goto {s' : DnsLookups K A} {k' : LookupCall K A} {pc : LookupPc K A}
    (hin : s'.inFlight = s.inFlight) (hcalls : s'.calls = s.calls) (hk : s.calls[c]? = some k)
    (hkey : k'.key = k.key) (hleads : pc.leads = k.pc.leads) : Advances s (s'.goto c k' pc) where
  inFlight := hin
  calls d l hl hd := by
    rcases goto_calls (hcalls ▸ hk) hl with ⟨rfl, rfl⟩ | ⟨-, hold⟩
    · exact ⟨k, hk, hkey.symm, hleads ▸ hd⟩
    · exact ⟨l, hcalls ▸ hold, rfl, hd⟩
  leads d l hl hd := by
    by_cases hdc : d = c
    · subst hdc
      obtain rfl := Option.some.inj (hl.symm.trans hk)
      exact ⟨_, goto_self (hcalls ▸ hk), hkey, hleads.trans hd⟩
    · exact ⟨l, (goto_of_ne hdc).trans (hcalls ▸ hl), rfl, hd⟩

theorem advances_calls (hin : t.inFlight = s.inFlight) (hcalls : t.calls = s.calls) :
    Advances s t where
  inFlight := hin
  calls _ l hl hd := ⟨l, hcalls ▸ hl, rfl, hd⟩
  leads _ l hl hd := ⟨l, hcalls ▸ hl, rfl, hd⟩

theorem advances_call (key : K) (nowMs : Int64) :
    Advances s { s with calls := s.calls ++ [⟨key, nowMs, .read, false⟩] } where
  inFlight := rfl
  calls d l hl hd := by
    rcases append_calls hl with hold | ⟨-, rfl⟩
    · exact ⟨l, hold, rfl, hd⟩
    · cases hd
  leads d l hl hd := ⟨l, append_calls_of_some hl, rfl, hd⟩

end

variable [DecidableEq K] {s t u : DnsLookups K A} {cfg : LookupConfig} {e : LookupEvent K A}

/-- What a step can do to the markers. -/
inductive MarkerStep (s : DnsLookups K A) : LookupEvent K A → DnsLookups K A → Prop
  | advance (e : LookupEvent K A) (t : DnsLookups K A) (h : Advances s t) : MarkerStep s e t
  | lead (c k) (hk : s.calls[c]? = some k) (hpc : k.pc = .register)
      (hnone : s.inFlight.lookup k.key = none) :
      MarkerStep s (.go c) (goto { s with inFlight := s.inFlight.insert k.key c } c k .size)
  | remove (c k result) (hk : s.calls[c]? = some k) (hpc : k.pc = .remove result)
      (hown : s.inFlight.lookup k.key = some c) :
      MarkerStep s (.go c)
        (goto { s with inFlight := s.inFlight.erase k.key } c k (.countDown result))
  | keep (c k result) (hk : s.calls[c]? = some k) (hpc : k.pc = .remove result)
      (hlost : s.inFlight.lookup k.key ≠ some c) :
      MarkerStep s (.go c) (s.goto c k (.countDown result))
  | sweep (d key) (t : DnsLookups K A) (hin : t.inFlight = s.inFlight.erase key)
      (hcalls : t.calls = s.calls) :
      MarkerStep s (.sweepClear d key) t

theorem goStep_markers {c : ℕ} {k : LookupCall K A} (hk : s.calls[c]? = some k)
    (h : s.goStep cfg c k = some t) : MarkerStep s (.go c) t := by
  have advance : ∀ {s' : DnsLookups K A} {k' : LookupCall K A} {pc : LookupPc K A},
      s'.inFlight = s.inFlight → s'.calls = s.calls → k'.key = k.key → pc.leads = k.pc.leads →
      MarkerStep s (.go c) (s'.goto c k' pc) := fun hin hcalls hkey hleads =>
    .advance _ _ (advances_goto hin hcalls hk hkey hleads)
  unfold goStep at h
  split at h
  case h_1 hpc | h_3 hpc =>
    split at h <;> cases h <;> exact advance rfl rfl rfl (by rw [hpc]; rfl)
  case h_2 hpc =>
    split at h
    case h_1 =>
      cases h
      exact advance rfl rfl rfl (by rw [hpc]; rfl)
    case h_2 hnone =>
      cases h
      exact .lead c k hk hpc hnone
  case h_7 result hpc =>
    split at h
    case isTrue hown =>
      cases h
      exact .remove c k result hk hpc hown
    case isFalse hlost =>
      cases h
      exact .keep c k result hk hpc hlost
  case h_4 hpc | h_5 hpc | h_6 hpc | h_8 hpc | h_9 hpc =>
    cases h
    exact advance rfl rfl rfl (by rw [hpc]; rfl)
  all_goals cases h

theorem marker_step (h : s.step cfg e = some t) : MarkerStep s e t := by
  have advance : ∀ {s' : DnsLookups K A} {c : ℕ} {k : LookupCall K A} {pc : LookupPc K A},
      s'.inFlight = s.inFlight → s'.calls = s.calls → s.calls[c]? = some k →
      pc.leads = k.pc.leads → MarkerStep s e (s'.goto c k pc) := fun hin hcalls hk hleads =>
    .advance _ _ (advances_goto hin hcalls hk rfl hleads)
  cases transition_of_step h with
  | call key nowMs => exact .advance _ _ (advances_call key nowMs)
  | wake c k leader inTime hk hpc | full c n k hk hpc | room c n k hk hpc
  | sweep c key k todo hk hpc | answered c k addresses hk hpc | threw c k hk hpc =>
      exact advance rfl rfl hk (by rw [hpc]; rfl)
  | clear => exact .advance _ _ (advances_calls rfl rfl)
  | sweepCache d key todo hd => exact .advance _ _ (advances_calls rfl rfl)
  | toInFlight d hd | cleared d hd => exact .advance _ _ (advances_calls rfl rfl)
  | sweepInFlight d key todo hd => exact .sweep d key _ rfl rfl
  | _ =>
      have hk := ‹s.calls[_]? = some _›
      simp only [step, hk, Option.bind_some] at h
      exact goStep_markers hk h

/-! ### Leaders and their markers -/

def Marked (s : DnsLookups K A) : Prop :=
  ∀ (key : K) (c : ℕ), s.inFlight.lookup key = some c →
    ∃ k, s.calls[c]? = some k ∧ k.key = key ∧ k.pc.leads = true

/-- The leaders since `s` have their markers. -/
def Holding (s t : DnsLookups K A) : Prop :=
  ∀ (c : ℕ) (k : LookupCall K A), t.calls[c]? = some k → k.pc.leads = true → ¬s.Leads c →
    t.inFlight.lookup k.key = some c

theorem marked_init : (DnsLookups.init : DnsLookups K A).Marked := nofun

/-- Behind its `remove` a call has no marker. -/
theorem Marked.countDown {c : ℕ} {k : LookupCall K A} {result : Option (List A)} (h : s.Marked)
    (hk : s.calls[c]? = some k) (hlost : s.inFlight.lookup k.key ≠ some c) :
    (s.goto c k (.countDown result)).Marked := by
  intro key d hd
  obtain ⟨l, hl, rfl, hleads⟩ := h key d hd
  have hdc : d ≠ c := by
    rintro rfl
    obtain rfl := Option.some.inj (hl.symm.trans hk)
    exact hlost hd
  exact ⟨l, (goto_of_ne hdc).trans hl, rfl, hleads⟩

theorem Marked.step (h : s.Marked) (hstep : s.step cfg e = some t) : t.Marked := by
  cases marker_step hstep with
  | advance _ _ hadv =>
      intro key c hc
      rw [hadv.inFlight] at hc
      obtain ⟨k, hk, rfl, hleads⟩ := h key c hc
      exact hadv.leads c k hk hleads
  | lead c k hk hpc hnone =>
      intro key d hd
      by_cases hkey : key = k.key
      · subst hkey
        obtain rfl : c = d := by
          simpa only [goto, AList.lookup_insert, Option.some.injEq] using hd
        exact ⟨_, goto_self hk, rfl, rfl⟩
      · obtain ⟨l, hl, rfl, hleads⟩ := h key d
          (by simpa only [goto, AList.lookup_insert_ne hkey] using hd)
        have hdc : d ≠ c := by
          rintro rfl
          obtain rfl := Option.some.inj (hl.symm.trans hk)
          exact hkey rfl
        exact ⟨l, (goto_of_ne hdc).trans hl, rfl, hleads⟩
  | remove c k result hk hpc hown =>
      have herased : Marked { s with inFlight := s.inFlight.erase k.key } := fun key d hd =>
        h key d (lookup_of_lookup_erase k.key hd)
      refine herased.countDown hk ?_
      rw [AList.lookup_erase]
      rintro ⟨⟩
  | keep c k result hk hpc hlost => exact h.countDown hk hlost
  | sweep d key t hin hcalls =>
      intro key' c hc
      rw [hin] at hc
      rw [hcalls]
      exact h key' c (lookup_of_lookup_erase key hc)

/-- Only `clear` takes out the marker of another call. -/
theorem marker_kept (hstep : s.step cfg e = some t) {key : K} {d : ℕ}
    (hd : s.inFlight.lookup key = some d) (hself : e ≠ .go d)
    (hclear : ∀ x key', e ≠ .sweepClear x key') : t.inFlight.lookup key = some d := by
  cases marker_step hstep with
  | advance _ _ hadv =>
      rw [hadv.inFlight]
      exact hd
  | lead c k hk hpc hnone =>
      have hkey : key ≠ k.key := by
        rintro rfl
        rw [hnone] at hd
        cases hd
      rw [goto, AList.lookup_insert_ne hkey]
      exact hd
  | remove c k result hk hpc hown =>
      have hkey : key ≠ k.key := by
        rintro rfl
        obtain rfl := Option.some.inj (hown.symm.trans hd)
        exact hself rfl
      rw [goto, AList.lookup_erase_ne hkey]
      exact hd
  | keep c k result hk hpc hlost => exact hd
  | sweep x key' t hin hcalls => exact absurd rfl (hclear x key')

/-- As long as no `clear` is at work, a leader keeps its marker up to its own `remove`. -/
theorem Holding.step (h : s.Holding t) (hstep : t.step cfg e = some u) (hquiet : e.ofClear = false) :
    s.Holding u := by
  have others : ∀ {c d : ℕ} {l : LookupCall K A}, e = .go c → t.calls[d]? = some l → d ≠ c →
      l.pc.leads = true → ¬s.Leads d → u.inFlight.lookup l.key = some d := by
    rintro c d l rfl hl hdc hleads hnew
    exact marker_kept hstep (h d l hl hleads hnew) (fun heq => hdc (by cases heq; rfl))
      (by rintro _ _ ⟨⟩)
  cases marker_step hstep with
  | advance _ _ hadv =>
      intro c k hk hleads hnew
      obtain ⟨l, hl, hkey, hleads'⟩ := hadv.calls c k hk hleads
      rw [hadv.inFlight, ← hkey]
      exact h c l hl hleads' hnew
  | lead c k hk hpc hnone =>
      intro d l hl hleads hnew
      rcases goto_calls hk hl with ⟨rfl, rfl⟩ | ⟨hdc, hold⟩
      · exact AList.lookup_insert _
      · exact others rfl hold hdc hleads hnew
  | remove c k result hk hpc hown =>
      intro d l hl hleads hnew
      rcases goto_calls hk hl with ⟨rfl, rfl⟩ | ⟨hdc, hold⟩
      · cases hleads
      · exact others rfl hold hdc hleads hnew
  | keep c k result hk hpc hlost =>
      intro d l hl hleads hnew
      rcases goto_calls hk hl with ⟨rfl, rfl⟩ | ⟨hdc, hold⟩
      · cases hleads
      · exact h d l hold hleads hnew
  | sweep => cases hquiet

end DnsLookups

open DnsLookups

/-- In every run of the lookups, with `resolve` returning or throwing:

* while no `clear` is at work, no two calls that have become leaders of one key meanwhile are both
  under way;
* no step but its own `remove` and `clear` takes out the marker of a leader, whenever it started;
* a marker belongs to a leader of its key that is still under way, so none is left when no call is,
  and a call that then registers becomes the leader. -/
theorem single_flight [DecidableEq K] (cfg : LookupConfig) {es : List (LookupEvent K A)}
    {s : DnsLookups K A} (hrun : run (step cfg) init es = some s) :
    (∀ (es' : List (LookupEvent K A)) (t : DnsLookups K A), run (step cfg) s es' = some t →
      (∀ e ∈ es', e.ofClear = false) → ∀ (c d : ℕ) (k l : LookupCall K A),
        t.calls[c]? = some k → t.calls[d]? = some l → k.pc.leads = true → l.pc.leads = true →
          ¬s.Leads c → ¬s.Leads d → k.key = l.key → c = d) ∧
    (∀ (e : LookupEvent K A) (t : DnsLookups K A) (key : K) (d : ℕ), s.step cfg e = some t →
      s.inFlight.lookup key = some d → e ≠ .go d → (∀ x key', e ≠ .sweepClear x key') →
        t.inFlight.lookup key = some d) ∧
    (∀ (key : K) (d : ℕ), s.inFlight.lookup key = some d →
      ∃ l, s.calls[d]? = some l ∧ l.key = key ∧ l.pc.leads = true) ∧
    ((∀ (d : ℕ) (l : LookupCall K A), s.calls[d]? = some l → l.pc.done = true) →
      s.inFlight.keys = []) ∧
    ∀ (c : ℕ) (k : LookupCall K A), s.calls[c]? = some k → k.pc = .register →
      (∀ (d : ℕ) (l : LookupCall K A), d ≠ c → s.calls[d]? = some l → l.pc.done = true) →
        s.step cfg (.go c) =
          some (goto { s with inFlight := s.inFlight.insert k.key c } c k .size) := by
  have hmarked : s.Marked := run_invariant (fun _ _ _ h hstep => h.step hstep) marked_init hrun
  have hdone : ∀ {l : LookupCall K A}, l.pc.leads = true → l.pc.done = true → False :=
    fun hleads hend => absurd (LookupPc.not_done_of_leads hleads) (by rw [hend]; rintro ⟨⟩)
  refine ⟨fun es' t hrun' hquiet c d k l hk hl hkl hll hc hd hkey => ?_,
    fun e t key d hstep hd hself hclear => marker_kept hstep hd hself hclear, hmarked,
    fun hends => ?_, fun c k hk hpc hends => ?_⟩
  · have hholding : s.Holding t := by
      have hstart : s.Holding s := fun c k hk hleads hnew => absurd ⟨k, hk, hleads⟩ hnew
      exact run_invariant_of_meets (C := fun _ e => e.ofClear = false)
        (fun _ _ _ h hq hstep => h.step hstep hq) hstart (Meets.of_forall hquiet s) hrun'
    have hown := hholding c k hk hkl hc
    rw [hkey, hholding d l hl hll hd] at hown
    exact (Option.some.inj hown).symm
  · refine List.eq_nil_iff_forall_not_mem.mpr fun key hkey => ?_
    obtain ⟨d, hd⟩ := Option.isSome_iff_exists.mp (AList.lookup_isSome.mpr hkey)
    obtain ⟨l, hl, -, hleads⟩ := hmarked key d hd
    exact hdone hleads (hends d l hl)
  · have hnone : s.inFlight.lookup k.key = none := by
      refine Option.eq_none_iff_forall_not_mem.mpr fun d hd => ?_
      obtain ⟨l, hl, -, hleads⟩ := hmarked k.key d hd
      by_cases hdc : d = c
      · subst hdc
        obtain rfl := Option.some.inj (hl.symm.trans hk)
        rw [hpc] at hleads
        cases hleads
      · exact hdone hleads (hends d l hdc hl)
    simp only [step, hk, Option.bind_some, goStep, hpc, hnone]

/-- The `resolve` of a leader throws while a follower waits, and the same name is looked up again. -/
def throwAndRetry : List (LookupEvent ℕ ℕ) :=
  [.call 1 0, .go 0, .go 0, .size 0 0, .go 0, .call 1 0, .go 1, .go 1, .answer 0 none, .go 0, .go 0,
    .wake 1 true, .go 1, .call 1 0, .go 2]

theorem single_flight_thrown :
    ∃ s t, run (step {}) init throwAndRetry = some s ∧
      s.calls[0]? = some ⟨1, 0, .thrown, true⟩ ∧ s.step {} (.go 2) = some t ∧ t.Leads 2 := by
  obtain ⟨s, hrun, hthrown, hfollower, hcall, hlength⟩ : ∃ s : DnsLookups ℕ ℕ,
      run (step {}) init throwAndRetry = some s ∧ s.calls[0]? = some ⟨1, 0, .thrown, true⟩ ∧
        s.calls[1]? = some ⟨1, 0, .returned [] none, false⟩ ∧
          s.calls[2]? = some ⟨1, 0, .register, false⟩ ∧ s.calls.length = 3 :=
    exists_run_of_any (by decide +kernel)
  have hends : ∀ (d : ℕ) (l : LookupCall ℕ ℕ), d ≠ 2 → s.calls[d]? = some l → l.pc.done = true := by
    intro d l hd hl
    obtain ⟨hlt, -⟩ := List.getElem?_eq_some_iff.mp hl
    obtain rfl | rfl : d = 0 ∨ d = 1 := by omega
    · obtain rfl := Option.some.inj (hthrown.symm.trans hl)
      rfl
    · obtain rfl := Option.some.inj (hfollower.symm.trans hl)
      rfl
  have hlead := (single_flight {} hrun).2.2.2.2 2 _ hcall rfl hends
  exact ⟨s, _, hrun, hthrown, hlead, _, goto_self hcall, rfl⟩

end FiveGProxy
