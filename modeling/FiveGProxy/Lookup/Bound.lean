import FiveGProxy.Lookup.Model
import FiveGProxy.Library.Tally
import Mathlib.Data.Finset.Card

/-!
# How large the cache gets

A leader looks at the size of the cache, empties it when it is full, and stores its entry after the
query. Between the look and the store other leaders look and store as well, an eviction that is
under way spares what it does not find, and `size` may miss an entry whose `put` has not come back.
So `maxEntries` is no bound for the cache; it is one up to an entry for each leader at work.
-/

namespace FiveGProxy

open Steps Tally

variable {K A : Type*}

/-- The call has been at the size of the cache and not yet at its `put`. -/
def LookupPc.admitted : LookupPc K A → Bool
  | evict _ | invoke | resolving | put _ => true
  | read | register | await _ | reread _ _ | size | remove _ | countDown _ | returned _ _
  | thrown => false

def LookupPc.stores : LookupPc K A → Bool
  | invoke | resolving | put _ => true
  | read | register | await _ | reread _ _ | size | evict _ | remove _ | countDown _
  | returned _ _ | thrown => false

def LookupPc.uncounted : LookupPc K A → Bool
  | remove (some _) => true
  | read | register | await _ | reread _ _ | size | evict _ | invoke | resolving | put _
  | remove none | countDown _ | returned _ _ | thrown => false

def LookupPc.todo : LookupPc K A → List K
  | evict keys => keys
  | read | register | await _ | reread _ _ | size | invoke | resolving | put _ | remove _
  | countDown _ | returned _ _ | thrown => []

theorem LookupPc.admitted_of_stores {pc : LookupPc K A} (h : pc.stores = true) :
    pc.admitted = true := by
  cases pc <;> first | rfl | cases h

theorem LookupPc.todo_of_stores {pc : LookupPc K A} (h : pc.stores = true) : pc.todo = [] := by
  cases pc <;> first | rfl | cases h

namespace DnsLookups

variable {s t : DnsLookups K A} {cfg : LookupConfig} {N c : ℕ} {k k' : LookupCall K A}
  {pc : LookupPc K A} {calls : Finset ℕ}

def admitted (s : DnsLookups K A) : ℕ := total (fun k => k.pc.admitted.toNat) s.calls

def uncounted (s : DnsLookups K A) : ℕ := total (fun k => k.pc.uncounted.toNat) s.calls

/-- A leader looks at the size while fewer than `N` are at work, and misses no entry but theirs. -/
def Uncrowded (N : ℕ) (s : DnsLookups K A) : LookupEvent K A → Prop
  | .size _ n => s.cache.keys.length ≤ n + s.uncounted ∧ s.admitted + s.uncounted < N
  | _ => True

instance (N : ℕ) (s : DnsLookups K A) : (e : LookupEvent K A) → Decidable (Uncrowded N s e)
  | .size _ n => inferInstanceAs
      (Decidable (s.cache.keys.length ≤ n + s.uncounted ∧ s.admitted + s.uncounted < N))
  | .call .. | .go _ | .wake .. | .sweep .. | .answer .. | .clear | .sweepClear .. | .goClear _ =>
      inferInstanceAs (Decidable True)

/-- Some of the calls that have been at the size, with all that are about to store. -/
structure Admits (s : DnsLookups K A) (calls : Finset ℕ) : Prop where
  admitted : ∀ c ∈ calls, ∃ k, s.calls[c]? = some k ∧ k.pc.admitted = true
  stores : ∀ c k, s.calls[c]? = some k → k.pc.stores = true → c ∈ calls

def Doomed (s : DnsLookups K A) (calls : Finset ℕ) (key : K) : Prop :=
  ∃ c ∈ calls, ∃ k, s.calls[c]? = some k ∧ key ∈ k.pc.todo

open Classical in
noncomputable def spared (s : DnsLookups K A) (calls : Finset ℕ) : Finset K :=
  s.cache.keys.toFinset.filter fun key => ¬s.Doomed calls key

theorem mem_spared {key : K} : key ∈ s.spared calls ↔ key ∈ s.cache.keys ∧ ¬s.Doomed calls key := by
  simp only [spared, Finset.mem_filter, List.mem_toFinset]

/-- Whichever of the evictions under way are over, there is room for what they and the other calls
at work leave and store. -/
def Bounded (cfg : LookupConfig) (N : ℕ) (s : DnsLookups K A) : Prop :=
  ∀ calls, s.Admits calls → (s.spared calls).card + calls.card ≤ (cfg.maxEntries - 1).toNat + N

theorem Bounded.init : Bounded cfg N (.init : DnsLookups K A) := by
  intro calls hcalls
  have hnone : calls = ∅ := Finset.eq_empty_of_forall_notMem fun c hc => by
    obtain ⟨k, hk, -⟩ := hcalls.admitted c hc
    cases hk
  have hempty : (DnsLookups.init : DnsLookups K A).spared calls = ∅ :=
    Finset.eq_empty_of_forall_notMem fun key hkey => by cases (mem_spared.mp hkey).1
  rw [hnone] at hempty ⊢
  rw [hempty]
  exact Nat.zero_le _

theorem Bounded.keep (h : Bounded cfg N s) (hcalls : t.calls = s.calls)
    (hkeys : t.cache.keys ⊆ s.cache.keys) : Bounded cfg N t := by
  intro calls hadmits
  have hsub : t.spared calls ⊆ s.spared calls := by
    intro key hkey
    obtain ⟨hmem, hnot⟩ := mem_spared.mp hkey
    exact mem_spared.mpr ⟨hkeys hmem, fun hdoomed => hnot (by rwa [Doomed, hcalls])⟩
  refine Nat.le_trans (Nat.add_le_add_right (Finset.card_le_card hsub) _) (h calls ⟨?_, ?_⟩)
  · exact hcalls ▸ hadmits.admitted
  · exact hcalls ▸ hadmits.stores

theorem Bounded.call (h : Bounded cfg N s) (key : K) (nowMs : Int64) :
    Bounded cfg N { s with calls := s.calls ++ [⟨key, nowMs, .read, false⟩] } := by
  intro calls hadmits
  have hold : ∀ c ∈ calls, ∃ k, s.calls[c]? = some k ∧ k.pc.admitted = true := by
    intro c hc
    obtain ⟨k, hk, hpc⟩ := hadmits.admitted c hc
    rcases append_calls hk with hk | ⟨-, rfl⟩
    · exact ⟨k, hk, hpc⟩
    · cases hpc
  have hsub : spared { s with calls := s.calls ++ [⟨key, nowMs, .read, false⟩] } calls ⊆
      s.spared calls := by
    intro key' hkey
    obtain ⟨hmem, hnot⟩ := mem_spared.mp hkey
    refine mem_spared.mpr ⟨hmem, ?_⟩
    rintro ⟨c, hc, k, hk, htake⟩
    exact hnot ⟨c, hc, k, append_calls_of_some hk, htake⟩
  refine Nat.le_trans (Nat.add_le_add_right (Finset.card_le_card hsub) _) (h calls ⟨hold, ?_⟩)
  exact fun c k hk => hadmits.stores c k (append_calls_of_some hk)

theorem Bounded.move_of (h : Bounded cfg N s) (hk : s.calls[c]? = some k)
    (hcalls : t.calls = (s.goto c k' pc).calls) (hkeys : t.cache.keys ⊆ s.cache.keys)
    (hadmits : t.Admits calls)
    (hadmitted : c ∈ calls → pc.admitted = true → k.pc.admitted = true)
    (hstores : k.pc.stores = true → pc.stores = true)
    (htodo : ∀ key ∈ t.cache.keys, key ∈ k.pc.todo → key ∈ pc.todo) :
    (t.spared calls).card + calls.card ≤ (cfg.maxEntries - 1).toNat + N := by
  have hself : t.calls[c]? = some { k' with pc := pc } := hcalls ▸ goto_self hk
  have hother : ∀ {d}, d ≠ c → t.calls[d]? = s.calls[d]? := fun hd => hcalls ▸ goto_of_ne hd
  have hsub : t.spared calls ⊆ s.spared calls := by
    intro key hkey
    obtain ⟨hmem, hnot⟩ := mem_spared.mp hkey
    refine mem_spared.mpr ⟨hkeys hmem, ?_⟩
    rintro ⟨d, hd, l, hl, htake⟩
    by_cases hdc : d = c
    · subst hdc
      obtain rfl := Option.some.inj (hk.symm.trans hl)
      exact hnot ⟨d, hd, _, hself, htodo key hmem htake⟩
    · exact hnot ⟨d, hd, l, (hother hdc).trans hl, htake⟩
  refine Nat.le_trans (Nat.add_le_add_right (Finset.card_le_card hsub) _) (h calls ⟨?_, ?_⟩)
  · intro d hd
    obtain ⟨l, hl, hpc⟩ := hadmits.admitted d hd
    by_cases hdc : d = c
    · subst hdc
      obtain rfl := Option.some.inj (hself.symm.trans hl)
      exact ⟨k, hk, hadmitted hd hpc⟩
    · exact ⟨l, (hother hdc).symm.trans hl, hpc⟩
  · intro d l hl hpc
    by_cases hdc : d = c
    · subst hdc
      obtain rfl := Option.some.inj (hk.symm.trans hl)
      exact hadmits.stores d _ hself (hstores hpc)
    · exact hadmits.stores d l ((hother hdc).trans hl) hpc

theorem Bounded.move (h : Bounded cfg N s) (hk : s.calls[c]? = some k)
    (hcalls : t.calls = (s.goto c k' pc).calls) (hkeys : t.cache.keys ⊆ s.cache.keys)
    (hadmitted : pc.admitted = true → k.pc.admitted = true)
    (hstores : k.pc.stores = true → pc.stores = true)
    (htodo : ∀ key ∈ t.cache.keys, key ∈ k.pc.todo → key ∈ pc.todo) : Bounded cfg N t :=
  fun _ hadmits => h.move_of hk hcalls hkeys hadmits (fun _ => hadmitted) hstores htodo

/-- A call that was about to store is through, and at most its own key has come. -/
theorem Bounded.leave (h : Bounded cfg N s) (hk : s.calls[c]? = some k)
    (hcalls : t.calls = (s.goto c k' pc).calls)
    (hkeys : ∀ key ∈ t.cache.keys, key = k.key ∨ key ∈ s.cache.keys)
    (hstores : k.pc.stores = true) (hthrough : pc.admitted = false) : Bounded cfg N t := by
  classical
  intro calls hadmits
  have hself : t.calls[c]? = some { k' with pc := pc } := hcalls ▸ goto_self hk
  have hother : ∀ {d}, d ≠ c → t.calls[d]? = s.calls[d]? := fun hd => hcalls ▸ goto_of_ne hd
  have hnot : c ∉ calls := by
    intro hc
    obtain ⟨l, hl, hpc⟩ := hadmits.admitted c hc
    obtain rfl := Option.some.inj (hself.symm.trans hl)
    cases hthrough.symm.trans hpc
  have hsub : t.spared calls ⊆ insert k.key (s.spared (insert c calls)) := by
    intro key hkey
    obtain ⟨hmem, hfree⟩ := mem_spared.mp hkey
    rcases hkeys key hmem with hkey' | hold
    · rw [hkey']
      exact Finset.mem_insert_self _ _
    refine Finset.mem_insert_of_mem (mem_spared.mpr ⟨hold, ?_⟩)
    rintro ⟨d, hd, l, hl, htake⟩
    by_cases hdc : d = c
    · subst hdc
      obtain rfl := Option.some.inj (hk.symm.trans hl)
      rw [LookupPc.todo_of_stores hstores] at htake
      cases htake
    · exact hfree ⟨d, (Finset.mem_insert.mp hd).resolve_left hdc, l, (hother hdc).trans hl, htake⟩
  have hadmits' : s.Admits (insert c calls) := by
    constructor
    · intro d hd
      rcases Finset.mem_insert.mp hd with rfl | hd
      · exact ⟨k, hk, LookupPc.admitted_of_stores hstores⟩
      · obtain ⟨l, hl, hpc⟩ := hadmits.admitted d hd
        exact ⟨l, (hother (ne_of_mem_of_not_mem hd hnot)).symm.trans hl, hpc⟩
    · intro d l hl hpc
      by_cases hdc : d = c
      · exact hdc ▸ Finset.mem_insert_self _ _
      · exact Finset.mem_insert_of_mem (hadmits.stores d l ((hother hdc).trans hl) hpc)
  have hroom := h _ hadmits'
  have hcard := (Finset.card_le_card hsub).trans (Finset.card_insert_le _ _)
  rw [Finset.card_insert_of_notMem hnot] at hroom
  omega

/-- A call is at work that was not: it is one more than there were. -/
theorem card_le_of_admits (hcalls : t.calls = (s.goto c k' pc).calls)
    (hadmits : t.Admits calls) (hc : c ∈ calls) : calls.card ≤ s.admitted + 1 := by
  have hrest : (calls.erase c).card ≤ s.admitted := by
    refine card_le_total fun d hd => ?_
    obtain ⟨l, hl, hpc⟩ := hadmits.admitted d (Finset.mem_of_mem_erase hd)
    rw [hcalls, goto_of_ne (Finset.ne_of_mem_erase hd)] at hl
    exact ⟨l, hl, by rw [hpc]; exact Nat.zero_lt_one⟩
  rw [Finset.card_erase_of_mem hc] at hrest
  omega

theorem card_spared_le : (s.spared calls).card ≤ s.cache.keys.length := by
  classical
  exact (Finset.card_le_card (Finset.filter_subset _ _)).trans (List.toFinset_card_le _)

variable [DecidableEq K]

theorem keys_erase_subset (cache : AList fun _ : K => CacheEntry A) (key : K) :
    (cache.erase key).keys ⊆ cache.keys := by
  rw [AList.keys_erase]
  exact List.erase_subset

theorem size_cases {n : ℕ} (hstep : s.step cfg (.size c n) = some t) :
    ∃ k, s.calls[c]? = some k ∧ k.pc = .size ∧
      (t = s.goto c k (.evict s.cache.keys) ∨ (n : ℤ) < cfg.maxEntries ∧ t = s.goto c k .invoke) := by
  obtain ⟨k, hk, hstep⟩ := Option.bind_eq_some_iff.mp hstep
  refine ⟨k, hk, ?_⟩
  split at hstep
  case h_1 hpc =>
    refine ⟨hpc, ?_⟩
    split at hstep
    case isTrue =>
      cases hstep
      exact Or.inl rfl
    case isFalse hroom =>
      cases hstep
      exact Or.inr ⟨not_le.mp hroom, rfl⟩
  case h_2 => cases hstep

theorem Bounded.size {n : ℕ} (h : Bounded cfg N s) (hcount : s.cache.keys.length ≤ n + s.uncounted)
    (hcrowd : s.admitted + s.uncounted < N) (hstep : s.step cfg (.size c n) = some t) :
    Bounded cfg N t := by
  obtain ⟨k, hk, hpc, rfl | ⟨hroom, rfl⟩⟩ := size_cases hstep <;> intro calls hadmits
  · by_cases hc : c ∈ calls
    · -- the eviction is going to take out whatever there is
      have hnone : (s.goto c k (.evict s.cache.keys)).spared calls = ∅ := by
        refine Finset.eq_empty_of_forall_notMem fun key hkey => ?_
        obtain ⟨hmem, hnot⟩ := mem_spared.mp hkey
        exact hnot ⟨c, hc, _, goto_self hk, hmem⟩
      have hcard := card_le_of_admits rfl hadmits hc
      rw [hnone, Finset.card_empty]
      omega
    · refine h.move_of hk rfl (List.Subset.refl _) hadmits (fun hmem => absurd hmem hc) ?_ ?_ <;>
        rw [hpc]
      · exact fun hstores => by cases hstores
      · exact fun _ _ hkey => by cases hkey
  · have hc : c ∈ calls := hadmits.stores c _ (goto_self hk) rfl
    have hcard := card_le_of_admits rfl hadmits hc
    have hspared : ((s.goto c k .invoke).spared calls).card ≤ s.cache.keys.length := card_spared_le
    omega

theorem Bounded.step {e : LookupEvent K A} (h : Bounded cfg N s) (hcrowd : Uncrowded N s e)
    (hstep : s.step cfg e = some t) : Bounded cfg N t := by
  have hgo : ∀ {s' : DnsLookups K A} {c : ℕ} {k k' : LookupCall K A} {pc : LookupPc K A},
      s.calls[c]? = some k → s'.calls = s.calls → s'.cache = s.cache →
        (pc.admitted = true → k.pc.admitted = true) → (k.pc.stores = true → pc.stores = true) →
          k.pc.todo = [] → Bounded cfg N (s'.goto c k' pc) := by
    intro s' c k k' pc hk hcalls hcache hadmitted hstores htodo
    refine h.move hk (by rw [goto, goto, hcalls]) ?_ hadmitted hstores ?_
    · rw [goto, hcache]
      exact List.Subset.refl _
    · intro key _ hkey
      rw [htodo] at hkey
      cases hkey
  cases transition_of_step hstep with
  | call key nowMs => exact h.call key nowMs
  | hit c k e hk hpc he | miss c k hk hpc | follow c k leader hk hpc hin | lead c k hk hpc
  | wake c k leader inTime hk hpc hlatch | rehit c k leader inTime e hk hpc he
  | remiss c k leader inTime hk hpc he | swept c k hk hpc | invoke c k hk hpc
  | answered c k addresses hk hpc | removed c k result hk hpc | kept c k result hk hpc
  | countDown c k addresses hk hpc | thrown c k hk hpc =>
      exact hgo hk rfl rfl (by simp [hpc, LookupPc.admitted]) (by simp [hpc, LookupPc.stores])
        (by rw [hpc]; rfl)
  | full c n k hk hpc | room c n k hk hpc => exact h.size hcrowd.1 hcrowd.2 hstep
  | sweep c key k todo hk hpc =>
      refine h.move hk rfl (keys_erase_subset _ _) (fun _ => by rw [hpc]; rfl)
        (fun hstores => by rw [hpc] at hstores; cases hstores) fun key' hmem hkey => ?_
      have hne : key' ≠ key := (AList.mem_erase.mp (AList.mem_keys.mpr hmem)).1
      rw [hpc] at hkey
      exact (List.mem_erase_of_ne hne).mpr hkey
  | threw c k hk hpc =>
      exact h.leave hk rfl (fun _ hkey => Or.inr hkey) (by rw [hpc]; rfl) rfl
  | put c k addresses hk hpc =>
      refine h.leave hk rfl (fun key hkey => ?_) (by rw [hpc]; rfl) rfl
      exact (AList.mem_insert (s := s.cache)).mp (AList.mem_keys.mpr hkey)
  | sweepCache d key todo hd => exact h.keep rfl (keys_erase_subset _ _)
  | clear | sweepInFlight d key todo hd | toInFlight d hd | cleared d hd =>
      exact h.keep rfl (List.Subset.refl _)

theorem Bounded.length_le (h : Bounded cfg N s) :
    s.cache.keys.length ≤ (cfg.maxEntries - 1).toNat + N := by
  classical
  -- no eviction is taken into account
  let calls := (Finset.range s.calls.length).filter fun c => (s.calls[c]?).any fun k => k.pc.stores
  have hmem : ∀ c, c ∈ calls ↔ ∃ k, s.calls[c]? = some k ∧ k.pc.stores = true := by
    intro c
    rw [Finset.mem_filter, Finset.mem_range, Option.any_eq_true]
    exact and_iff_right_of_imp fun hstores => (List.getElem?_eq_some_iff.mp hstores.choose_spec.1).1
  have hadmits : s.Admits calls := by
    refine ⟨fun c hc => ?_, fun c k hk hpc => (hmem c).mpr ⟨k, hk, hpc⟩⟩
    obtain ⟨k, hk, hpc⟩ := (hmem c).mp hc
    exact ⟨k, hk, LookupPc.admitted_of_stores hpc⟩
  have hspared : s.spared calls = s.cache.keys.toFinset := by
    ext key
    rw [mem_spared, List.mem_toFinset]
    refine and_iff_left_of_imp fun _ => ?_
    rintro ⟨c, hc, k, hk, htake⟩
    obtain ⟨l, hl, hpc⟩ := (hmem c).mp hc
    obtain rfl := Option.some.inj (hk.symm.trans hl)
    rw [LookupPc.todo_of_stores hpc] at htake
    cases htake
  have hbound := h calls hadmits
  rw [hspared, List.toFinset_card_of_nodup s.cache.keys_nodup] at hbound
  omega

end DnsLookups

open DnsLookups

/-- In every run in which less than `N` leaders are between the size and the `put` when one more
looks at the size, the cache never holds more than `maxEntries - 1 + N` entries. -/
theorem cache_size_bounded [DecidableEq K] (cfg : LookupConfig) (N : ℕ) {es : List (LookupEvent K A)}
    {st : DnsLookups K A} (hcrowd : Meets (DnsLookups.step cfg) (Uncrowded N) .init es)
    (hrun : run (DnsLookups.step cfg) .init es = some st) :
    st.cache.keys.length ≤ (cfg.maxEntries - 1).toNat + N :=
  (run_invariant_of_meets (fun _ _ _ h hmeets hstep => h.step hmeets hstep) Bounded.init hcrowd
    hrun).length_le

def leadTwice : List (LookupEvent ℕ ℕ) :=
  List.flatten [[.call 1 0], List.replicate 2 (.go 0), [.size 0 0, .go 0, .answer 0 (some [11])],
    List.replicate 3 (.go 0), [.call 2 0, .call 3 0], List.replicate 2 (.go 1),
    List.replicate 2 (.go 2), [.size 1 1, .size 2 1, .go 1, .go 2, .answer 1 (some [12]),
      .answer 2 (some [13]), .go 1, .go 2]]

theorem cache_size_bounded_leadTwice : ∃ st, run (DnsLookups.step { maxEntries := 2 }) .init leadTwice =
    some st ∧ st.cache.keys.length = 3 ∧ st.cache.keys.length ≤ ((2 : ℤ) - 1).toNat + 2 := by
  obtain ⟨st, hrun, hlen⟩ := exists_run_of_any (P := fun st => st.cache.keys.length = 3)
    (by decide : (run (DnsLookups.step { maxEntries := 2 }) .init leadTwice).any _ = true)
  exact ⟨st, hrun, hlen, cache_size_bounded { maxEntries := 2 } 2 (by decide) hrun⟩

end FiveGProxy
