import FiveGProxy.UdpDns.Model

/-!
# The cache of resolved names

`dns_cache_put` writes a name into the first slot that is free or expired, and otherwise over an entry
with the earliest expiry. It does not look for an entry that the name has already, so a name may have
several; `dns_cache_lookup` answers from the first.

A sequence of calls determines the table and the address that each name was given last. The two agree
on every lookup as long as no `dns_cache_put` writes behind an entry of its name with another address,
and none takes away the first of two entries of a name whose addresses differ (`PutMeets`).
-/

namespace FiveGProxy

/-- A call, with its time. -/
inductive DnsCacheCall
  | lookup (host : Host) (now : ℕ)
  | put (host : Host) (sa : SockAddr) (now : ℕ)
  deriving DecidableEq

namespace DnsCacheCall

def now : DnsCacheCall → ℕ
  | lookup _ now => now
  | put _ _ now => now

def apply (cache : DnsCache) : DnsCacheCall → DnsCache
  | lookup .. => cache
  | put host sa now => dnsCachePut cache host sa now

def assigns (host : Host) (latest : Option SockAddr) : DnsCacheCall → Option SockAddr
  | lookup .. => latest
  | put h sa _ => if h = host then some sa else latest

end DnsCacheCall

def cacheAfter (calls : List DnsCacheCall) : DnsCache :=
  calls.foldl DnsCacheCall.apply UdpDns.init.cache

/-- The address of the most recent `dns_cache_put` for the name. -/
def latestPut (calls : List DnsCacheCall) (host : Host) : Option SockAddr :=
  calls.foldl (DnsCacheCall.assigns host) none

/-- The slot that `dns_cache_put` overwrites. -/
abbrev dnsPutSlot (cache : DnsCache) (now : ℕ) : Fin dnsResolveCacheSlots :=
  dnsCacheSlot cache now (List.finRange dnsResolveCacheSlots) 0

def DnsCacheEntry.Live (e : DnsCacheEntry) (now : ℕ) : Prop := e.used = true ∧ now < e.expire

theorem DnsCacheEntry.Live.mono {e : DnsCacheEntry} {now now' : ℕ} (h : e.Live now')
    (hle : now ≤ now') : e.Live now :=
  ⟨h.1, hle.trans_lt h.2⟩

/-- The first unexpired entry of the name stands in slot `i`. -/
structure FirstLive (cache : DnsCache) (host : Host) (now : ℕ) (i : Fin dnsResolveCacheSlots) :
    Prop where
  live : (cache i).Live now
  host_eq : (cache i).host = host
  first : ∀ j < i, (cache j).Live now → (cache j).host ≠ host

section

variable {cache : DnsCache} {host : Host} {sa : SockAddr} {now : ℕ}

/-! ### The scans -/

theorem dnsCacheLookup_eq_some_iff : dnsCacheLookup cache host now = some sa ↔
    host.bytes ≠ [] ∧ ∃ i, FirstLive cache host now i ∧ (cache i).sa = sa := by
  unfold dnsCacheLookup
  by_cases hne : host.bytes = []
  · simp [hne]
  rw [if_neg hne, Option.map_eq_some_iff]
  simp only [List.find?_eq_some_iff_getElem, Bool.and_eq_true, decide_eq_true_eq,
    Bool.not_eq_true', Bool.and_eq_false_imp, decide_eq_false_iff_not, List.getElem_finRange,
    List.length_finRange]
  refine ⟨?_, ?_⟩
  · rintro ⟨i, ⟨⟨hlive, hhost⟩, k, hk, rfl, hfirst⟩, hsa⟩
    exact ⟨hne, _, ⟨hlive, hhost, fun j hj hj' => hfirst j hj hj'⟩, hsa⟩
  · rintro ⟨-, i, hi, hsa⟩
    exact ⟨i, ⟨⟨hi.live, hi.host_eq⟩, i, i.isLt, rfl, fun j hj hj' => hi.first ⟨j, _⟩ hj hj'⟩, hsa⟩

theorem exists_firstLive {i : Fin dnsResolveCacheSlots} (hlive : (cache i).Live now)
    (hhost : (cache i).host = host) : ∃ f ≤ i, FirstLive cache host now f := by
  induction i using WellFoundedLT.induction with
  | ind i ih =>
      by_cases hfirst : ∀ j < i, (cache j).Live now → (cache j).host ≠ host
      · exact ⟨i, le_rfl, hlive, hhost, hfirst⟩
      · push Not at hfirst
        obtain ⟨j, hj, hlivej, hhostj⟩ := hfirst
        obtain ⟨f, hf, h⟩ := ih j hj hlivej hhostj
        exact ⟨f, hf.trans hj.le, h⟩

/-- The loop ends at an entry that is not live, or has found the earliest expiry. -/
theorem dnsCacheSlot_spec (l : List (Fin dnsResolveCacheSlots)) (slot : Fin dnsResolveCacheSlots)
    (hlive : (cache (dnsCacheSlot cache now l slot)).Live now) :
    (cache (dnsCacheSlot cache now l slot)).expire ≤ (cache slot).expire ∧
      ∀ i ∈ l, (cache i).Live now ∧
        (cache (dnsCacheSlot cache now l slot)).expire ≤ (cache i).expire := by
  induction l generalizing slot with
  | nil => exact ⟨le_rfl, nofun⟩
  | cons i rest ih =>
      unfold dnsCacheSlot at hlive ⊢
      split at hlive
      case isTrue hdead =>
        exact absurd hlive fun h => hdead.elim (fun hused => absurd h.1 (by simp [hused]))
          fun hexp => absurd h.2 (not_lt.mpr hexp)
      case isFalse hdead =>
        rw [if_neg hdead]
        obtain ⟨hslot, hrest⟩ := ih _ hlive
        have hi : (cache i).Live now :=
          ⟨Bool.eq_true_of_not_eq_false fun h => hdead (Or.inl h),
            not_le.mp fun h => hdead (Or.inr h)⟩
        have hmin : ∀ j, j = i ∨ j = slot → (cache (if (cache i).expire < (cache slot).expire then i
            else slot)).expire ≤ (cache j).expire := by
          rintro j (rfl | rfl) <;> split_ifs <;> omega
        refine ⟨hslot.trans (hmin slot (Or.inr rfl)), fun j hj => ?_⟩
        rcases List.mem_cons.mp hj with rfl | hj
        · exact ⟨hi, hslot.trans (hmin j (Or.inl rfl))⟩
        · exact hrest j hj

/-- An unexpired entry is chosen only when all are unexpired, and then none expires before it. -/
theorem dnsPutSlot_live (hlive : (cache (dnsPutSlot cache now)).Live now)
    (i : Fin dnsResolveCacheSlots) :
    (cache i).Live now ∧ (cache (dnsPutSlot cache now)).expire ≤ (cache i).expire :=
  (dnsCacheSlot_spec _ _ hlive).2 i (List.mem_finRange i)

theorem dnsCachePut_apply (hne : host.bytes ≠ []) (i : Fin dnsResolveCacheSlots) :
    dnsCachePut cache host sa now i =
      if i = dnsPutSlot cache now then ⟨host, sa, now + dnsResolveTtlSec, true⟩ else cache i := by
  rw [dnsCachePut, if_neg hne, Function.update_apply]

@[simp] theorem dnsCachePut_slot (hne : host.bytes ≠ []) :
    dnsCachePut cache host sa now (dnsPutSlot cache now) =
      ⟨host, sa, now + dnsResolveTtlSec, true⟩ := by
  rw [dnsCachePut_apply hne, if_pos rfl]

theorem dnsCachePut_of_ne {i : Fin dnsResolveCacheSlots} (hi : i ≠ dnsPutSlot cache now) :
    dnsCachePut cache host sa now i = cache i := by
  unfold dnsCachePut
  split
  · rfl
  · exact Function.update_of_ne hi ..

/-! ### One call -/

variable (cache host sa now) in
/-- The call writes before every unexpired entry of its name with another address, and does not take
away the first of two entries of another name whose addresses differ. -/
structure PutMeets : Prop where
  before : ∀ i < dnsPutSlot cache now, FirstLive cache host now i → (cache i).sa = sa
  uncovers : ∀ i, FirstLive cache (cache (dnsPutSlot cache now)).host now (dnsPutSlot cache now) →
    (cache (dnsPutSlot cache now)).host ≠ host → dnsPutSlot cache now < i →
    (cache i).host = (cache (dnsPutSlot cache now)).host →
    (∀ j < i, dnsPutSlot cache now < j → (cache j).host ≠ (cache (dnsPutSlot cache now)).host) →
      (cache i).sa = (cache (dnsPutSlot cache now)).sa

variable (cache now) in
/-- Every lookup from now on finds the address that the name was given last. -/
def AnswersLatest (latest : Host → Option SockAddr) : Prop :=
  ∀ host, host.bytes ≠ [] → ∀ now' ≥ now, ∀ i, FirstLive cache host now' i →
    latest host = some (cache i).sa

theorem AnswersLatest.mono {latest : Host → Option SockAddr} {now' : ℕ}
    (h : AnswersLatest cache now latest) (hle : now ≤ now') : AnswersLatest cache now' latest :=
  fun host hne now'' hnow'' => h host hne now'' (hle.trans hnow'')

/-- The slots in front of the one that is written are as they were. -/
theorem FirstLive.put_of_lt {i : Fin dnsResolveCacheSlots} {g : Host} {now' : ℕ}
    (hlt : i < dnsPutSlot cache now) :
    FirstLive (dnsCachePut cache host sa now) g now' i ↔ FirstLive cache g now' i := by
  have hkeep : ∀ j ≤ i, dnsCachePut cache host sa now j = cache j := fun j hj =>
    dnsCachePut_of_ne (hj.trans_lt hlt).ne
  constructor
  · rintro ⟨hlive, hhost, hfirst⟩
    rw [hkeep i le_rfl] at hlive hhost
    exact ⟨hlive, hhost, fun j hj => hkeep j hj.le ▸ hfirst j hj⟩
  · rintro ⟨hlive, hhost, hfirst⟩
    refine ⟨?_, ?_, fun j hj => ?_⟩
    · rwa [hkeep i le_rfl]
    · rwa [hkeep i le_rfl]
    · rw [hkeep j hj.le]
      exact hfirst j hj

/-- A call keeps the table in agreement with the latest addresses exactly when it meets the
condition. -/
theorem answersLatest_put_iff {latest : Host → Option SockAddr} (hne : host.bytes ≠ [])
    (h : AnswersLatest cache now latest)
    (hnil : ∀ i, (cache i).Live now → (cache i).host.bytes ≠ [])
    (hexpire : ∀ i, (cache i).expire ≤ now + dnsResolveTtlSec) :
    AnswersLatest (dnsCachePut cache host sa now) now
        (fun g => if host = g then some sa else latest g) ↔
      PutMeets cache host sa now := by
  set s := dnsPutSlot cache now with hs
  constructor
  · refine fun hafter => ⟨fun i hlt hi => ?_, fun i hfirst hhost hlt hi hbetween => ?_⟩
    · have hans := hafter host hne now le_rfl i ((FirstLive.put_of_lt hlt).mpr hi)
      beta_reduce at hans
      rw [if_pos rfl, dnsCachePut_of_ne hlt.ne] at hans
      exact (Option.some.inj hans).symm
    · -- The slot is unexpired, so all are, and `i` is the first entry of its name when it is gone.
      have hall := dnsPutSlot_live hfirst.live
      have hgne := hnil s hfirst.live
      have hnow := h (cache s).host hgne now le_rfl s hfirst
      have hnext : FirstLive (dnsCachePut cache host sa now) (cache s).host now i := by
        refine ⟨?_, ?_, fun j hj hlive => ?_⟩
        · rw [dnsCachePut_of_ne hlt.ne']
          exact (hall i).1
        · rwa [dnsCachePut_of_ne hlt.ne']
        · rcases lt_trichotomy j s with hjs | rfl | hjs
          · rw [dnsCachePut_of_ne hjs.ne]
            exact hfirst.first j hjs (hall j).1
          · rw [dnsCachePut_slot hne]
            exact hhost.symm
          · rw [dnsCachePut_of_ne hjs.ne']
            exact hbetween j hj hjs
      have hans := hafter (cache s).host hgne now le_rfl i hnext
      beta_reduce at hans
      rw [if_neg hhost.symm, hnow, dnsCachePut_of_ne hlt.ne'] at hans
      exact (Option.some.inj hans).symm
  · intro hmeets g hgne now' hnow' i hi
    show (if host = g then some sa else latest g) = _
    by_cases hg : host = g
    · subst hg
      rw [if_pos rfl]
      rcases lt_trichotomy i s with hlt | rfl | hlt
      · have hold := (FirstLive.put_of_lt hlt).mp hi
        obtain ⟨f, hf, hfirst⟩ := exists_firstLive (hold.live.mono hnow') hold.host_eq
        have hlatest := h host hne now le_rfl f hfirst
        rw [hmeets.before f (hf.trans_lt hlt) hfirst] at hlatest
        rw [dnsCachePut_of_ne hlt.ne, ← h host hne now' hnow' i hold, hlatest]
      · rw [dnsCachePut_slot hne]
      · have hlive := hi.live
        rw [dnsCachePut_of_ne hlt.ne'] at hlive
        have hnew : (dnsCachePut cache host sa now s).Live now' := by
          rw [dnsCachePut_slot hne]
          exact ⟨rfl, hlive.2.trans_le (hexpire i)⟩
        exact absurd (by rw [dnsCachePut_slot hne]) (hi.first s hlt hnew)
    · rw [if_neg hg]
      have his : i ≠ s := by
        rintro rfl
        have := hi.host_eq
        rw [dnsCachePut_slot hne] at this
        exact hg this
      have hlive := hi.live
      have hhost := hi.host_eq
      rw [dnsCachePut_of_ne his] at hlive hhost ⊢
      by_cases hold : FirstLive cache g now' i
      · exact h g hgne now' hnow' i hold
      · have hnot : ¬ ∀ j < i, (cache j).Live now' → (cache j).host ≠ g := fun hfirst =>
          hold ⟨hlive, hhost, hfirst⟩
        push Not at hnot
        obtain ⟨j, hj, hlivej, hhostj⟩ := hnot
        obtain rfl : j = s := by
          by_contra hjs
          have hkeep := hi.first j hj
          rw [dnsCachePut_of_ne hjs] at hkeep
          exact hkeep hlivej hhostj
        have hall := dnsPutSlot_live (hlivej.mono hnow')
        have hlater : ∀ l, (cache l).Live now' := fun l =>
          ⟨(hall l).1.1, hlivej.2.trans_le (hall l).2⟩
        have hother : ∀ l < i, l ≠ s → (cache l).host ≠ g := by
          intro l hl hls
          have hkeep := hi.first l hl
          rw [dnsCachePut_of_ne hls] at hkeep
          exact hkeep (hlater l)
        have hfirst : ∀ t, (cache s).Live t → FirstLive cache g t s := fun t ht =>
          ⟨ht, hhostj, fun l hl _ => hother l (hl.trans hj) hl.ne⟩
        rw [h g hgne now' hnow' s (hfirst now' hlivej)]
        have hsame := hmeets.uncovers i (by rw [← hs, hhostj]; exact hfirst now (hlivej.mono hnow'))
          (by rw [← hs, hhostj]; exact fun heq => hg heq.symm) hj (by rw [← hs, hhostj, hhost])
          (fun l hl hls => by rw [← hs, hhostj]; exact hother l hl hls.ne')
        rw [hsame]

end

/-! ### Sequences of calls -/

section

variable {calls pre : List DnsCacheCall}

@[simp] theorem cacheAfter_append (pre : List DnsCacheCall) (c : DnsCacheCall) :
    cacheAfter (pre ++ [c]) = c.apply (cacheAfter pre) := by
  simp [cacheAfter, List.foldl_append]

@[simp] theorem latestPut_append (pre : List DnsCacheCall) (c : DnsCacheCall) (host : Host) :
    latestPut (pre ++ [c]) host = c.assigns host (latestPut pre host) := by
  simp [latestPut, List.foldl_append]

theorem cacheAfter_entry (calls : List DnsCacheCall) (i : Fin dnsResolveCacheSlots) :
    cacheAfter calls i = UdpDns.init.cache i ∨ ∃ host sa t, host.bytes ≠ [] ∧
      .put host sa t ∈ calls ∧ cacheAfter calls i = ⟨host, sa, t + dnsResolveTtlSec, true⟩ := by
  induction calls using List.reverseRecOn with
  | nil => exact Or.inl rfl
  | append_singleton pre c ih =>
      have hold : cacheAfter (pre ++ [c]) i = cacheAfter pre i →
          cacheAfter (pre ++ [c]) i = UdpDns.init.cache i ∨ ∃ host sa t, host.bytes ≠ [] ∧
            .put host sa t ∈ pre ++ [c] ∧
              cacheAfter (pre ++ [c]) i = ⟨host, sa, t + dnsResolveTtlSec, true⟩ := by
        intro heq
        rw [heq]
        refine ih.imp_right ?_
        rintro ⟨host, sa, t, hne, hmem, hentry⟩
        exact ⟨host, sa, t, hne, List.mem_append_left _ hmem, hentry⟩
      cases c with
      | lookup host now => exact hold (by rw [cacheAfter_append]; rfl)
      | put host sa now =>
          by_cases hne : host.bytes = []
          · exact hold (by rw [cacheAfter_append, DnsCacheCall.apply, dnsCachePut, if_pos hne])
          by_cases hi : i = dnsPutSlot (cacheAfter pre) now
          · refine Or.inr ⟨host, sa, now, hne, by simp, ?_⟩
            rw [cacheAfter_append, DnsCacheCall.apply, dnsCachePut_apply hne, if_pos hi]
          · exact hold (by rw [cacheAfter_append, DnsCacheCall.apply, dnsCachePut_of_ne hi])

theorem put_of_live {i : Fin dnsResolveCacheSlots} {now : ℕ}
    (hlive : (cacheAfter calls i).Live now) : (cacheAfter calls i).host.bytes ≠ [] ∧
      ∃ sa t, .put (cacheAfter calls i).host sa t ∈ calls ∧ now < t + dnsResolveTtlSec := by
  rcases cacheAfter_entry calls i with hinit | ⟨host, sa, t, hne, hmem, hentry⟩
  · rw [hinit] at hlive
    exact nomatch hlive.1
  · rw [hentry] at hlive ⊢
    exact ⟨hne, sa, t, hmem, hlive.2⟩

theorem expire_le {now : ℕ} (hnow : ∀ c ∈ calls, c.now ≤ now) (i : Fin dnsResolveCacheSlots) :
    (cacheAfter calls i).expire ≤ now + dnsResolveTtlSec := by
  rcases cacheAfter_entry calls i with hinit | ⟨host, sa, t, -, hmem, hentry⟩
  · rw [hinit]
    exact Nat.zero_le _
  · rw [hentry]
    exact Nat.add_le_add_right (hnow _ hmem) _

theorem now_le_of_prefix (hsorted : calls.Pairwise (·.now ≤ ·.now)) {c : DnsCacheCall}
    (h : pre ++ [c] <+: calls) : ∀ d ∈ pre, d.now ≤ c.now := fun d hd =>
  (List.pairwise_append.mp (hsorted.sublist h.sublist)).2.2 d hd c (List.mem_singleton_self c)

/-- The step of `answersLatest_put_iff`, in a sequence of calls. -/
theorem answersLatest_append_put_iff {host : Host} {sa : SockAddr} {now : ℕ}
    (hne : host.bytes ≠ []) (hnow : ∀ c ∈ pre, c.now ≤ now)
    (h : AnswersLatest (cacheAfter pre) now (latestPut pre)) :
    AnswersLatest (cacheAfter (pre ++ [.put host sa now])) now
        (latestPut (pre ++ [.put host sa now])) ↔ PutMeets (cacheAfter pre) host sa now := by
  have hstep : AnswersLatest (dnsCachePut (cacheAfter pre) host sa now) now
      (fun g => if host = g then some sa else latestPut pre g) ↔
        PutMeets (cacheAfter pre) host sa now :=
    answersLatest_put_iff hne h (fun i hlive => (put_of_live hlive).1) (expire_le hnow)
  have hlatest : latestPut (pre ++ [.put host sa now]) =
      fun g => if host = g then some sa else latestPut pre g := by
    funext g
    exact latestPut_append ..
  rw [hlatest, cacheAfter_append]
  exact hstep

/-- The lookups that can follow a sequence of calls answer with the latest address. -/
theorem answersLatest_of_putMeets (hsorted : calls.Pairwise (·.now ≤ ·.now))
    (hmeets : ∀ pre host sa now, host.bytes ≠ [] → pre ++ [.put host sa now] <+: calls →
      PutMeets (cacheAfter pre) host sa now)
    (hpre : pre <+: calls) {now : ℕ} (hnow : ∀ c ∈ pre, c.now ≤ now) :
    AnswersLatest (cacheAfter pre) now (latestPut pre) := by
  induction pre using List.reverseRecOn generalizing now with
  | nil => exact fun _ _ _ _ _ hi => nomatch hi.live.1
  | append_singleton pre c ih =>
      have hc := now_le_of_prefix hsorted hpre
      have hold := ih ((List.prefix_append pre [c]).trans hpre) hc
      refine AnswersLatest.mono ?_ (hnow c (by simp))
      cases c with
      | lookup host t =>
          intro g hne now' hnow' i hi
          rw [cacheAfter_append] at hi ⊢
          rw [latestPut_append]
          exact hold g hne now' hnow' i hi
      | put host sa t =>
          by_cases hne : host.bytes = []
          · intro g hgne now' hnow' i hi
            rw [cacheAfter_append, DnsCacheCall.apply, dnsCachePut, if_pos hne] at hi ⊢
            have hg : host ≠ g := fun heq => hgne (by rw [← heq, hne])
            rw [latestPut_append, DnsCacheCall.assigns, if_neg hg]
            exact hold g hgne now' hnow' i hi
          · exact (answersLatest_append_put_iff hne hc hold).mpr (hmeets pre host sa t hne hpre)

/-- A hit names an address that was given to the name less than the time to live ago, and the latest
one; an unexpired entry is displaced only when all are unexpired, and expires no later than any. -/
structure TtlMap (calls : List DnsCacheCall) : Prop where
  hit : ∀ pre, pre <+: calls → ∀ host now, (∀ c ∈ pre, c.now ≤ now) → ∀ sa,
    dnsCacheLookup (cacheAfter pre) host now = some sa →
      (∃ sa' t, .put host sa' t ∈ pre ∧ now < t + dnsResolveTtlSec) ∧ latestPut pre host = some sa
  displaced : ∀ pre c, pre ++ [c] <+: calls → ∀ i, (cacheAfter pre i).Live c.now →
    cacheAfter (pre ++ [c]) i ≠ cacheAfter pre i →
      ∀ j, (cacheAfter pre j).Live c.now ∧ (cacheAfter pre i).expire ≤ (cacheAfter pre j).expire

theorem displaced_earliest {c : DnsCacheCall} {i : Fin dnsResolveCacheSlots}
    (hlive : (cacheAfter pre i).Live c.now) (hne : cacheAfter (pre ++ [c]) i ≠ cacheAfter pre i)
    (j : Fin dnsResolveCacheSlots) :
    (cacheAfter pre j).Live c.now ∧ (cacheAfter pre i).expire ≤ (cacheAfter pre j).expire := by
  rw [cacheAfter_append] at hne
  cases c with
  | lookup host now => exact absurd rfl hne
  | put host sa now =>
      obtain rfl : i = dnsPutSlot (cacheAfter pre) now := by
        by_contra hi
        exact hne (dnsCachePut_of_ne hi)
      exact dnsPutSlot_live hlive j

/-- In a sequence of calls with non-decreasing times, the cache is a map with a time to live if and
only if each `dns_cache_put` meets the condition in the table that it finds. -/
theorem ttlMap_iff (calls : List DnsCacheCall) (hsorted : calls.Pairwise (·.now ≤ ·.now)) :
    TtlMap calls ↔ ∀ pre host sa now, host.bytes ≠ [] → pre ++ [.put host sa now] <+: calls →
      PutMeets (cacheAfter pre) host sa now := by
  constructor
  · intro h pre host sa now hne hpre
    have hanswers : ∀ p, p <+: calls → (∀ c ∈ p, c.now ≤ now) →
        AnswersLatest (cacheAfter p) now (latestPut p) := by
      intro p hp hnow g hgne now' hnow' i hi
      exact (h.hit p hp g now' (fun c hc => (hnow c hc).trans hnow') _
        (dnsCacheLookup_eq_some_iff.mpr ⟨hgne, i, hi, rfl⟩)).2
    have hnow := now_le_of_prefix hsorted hpre
    refine (answersLatest_append_put_iff hne hnow
      (hanswers pre ((List.prefix_append pre _).trans hpre) hnow)).mp (hanswers _ hpre fun c hc => ?_)
    rcases List.mem_append.mp hc with hc | hc
    · exact hnow c hc
    · rw [List.mem_singleton.mp hc]
      exact le_rfl
  · intro hmeets
    refine ⟨fun pre hpre host now hnow sa hhit => ?_,
      fun pre c _ i hlive hne => displaced_earliest hlive hne⟩
    obtain ⟨hne, i, hi, rfl⟩ := dnsCacheLookup_eq_some_iff.mp hhit
    refine ⟨?_, answersLatest_of_putMeets hsorted hmeets hpre hnow host hne now le_rfl i hi⟩
    have hput := (put_of_live hi.live).2
    rwa [hi.host_eq] at hput

instance (e : DnsCacheEntry) : Decidable (e.Live now) :=
  inferInstanceAs (Decidable (_ ∧ _))

/-- The slot is free or has expired, and the unexpired entries of the name before it have the
address. -/
def PutsInPlace (cache : DnsCache) : DnsCacheCall → Prop
  | .lookup .. => True
  | .put host sa now => ¬ (cache (dnsPutSlot cache now)).Live now ∧
      ∀ i < dnsPutSlot cache now, (cache i).Live now → (cache i).host = host → (cache i).sa = sa

instance : ∀ c, Decidable (PutsInPlace cache c)
  | .lookup .. => .isTrue trivial
  | .put .. => inferInstanceAs (Decidable (_ ∧ _))

theorem putMeets_of_putsInPlace {calls pre : List DnsCacheCall}
    (h : ∀ n : Fin calls.length, PutsInPlace (cacheAfter (calls.take n)) (calls.get n))
    (hpre : pre ++ [.put host sa now] <+: calls) : PutMeets (cacheAfter pre) host sa now := by
  obtain ⟨rest, rfl⟩ := hpre
  have hcall := h ⟨pre.length, by simp⟩
  simp only [List.append_assoc, List.take_left, List.get_eq_getElem] at hcall
  rw [List.getElem_append_right (Nat.le_refl _)] at hcall
  simp only [Nat.sub_self] at hcall
  obtain ⟨hdead, hbefore⟩ := hcall
  exact ⟨fun i hi hfirst => hbefore i hi hfirst.live hfirst.host_eq,
    fun i hfirst => absurd hfirst.live hdead⟩

/-- Two names, of which one is put again with its address and, when it has expired, with another
one. -/
def twoNames : List DnsCacheCall :=
  [.put ⟨[97], by decide⟩ ⟨.v4 #v[10, 0, 0, 1], (0, 53)⟩ 1000,
    .put ⟨[98], by decide⟩ ⟨.v4 #v[10, 0, 0, 2], (0, 53)⟩ 1001,
    .put ⟨[97], by decide⟩ ⟨.v4 #v[10, 0, 0, 1], (0, 53)⟩ 1002,
    .lookup ⟨[97], by decide⟩ 1061,
    .put ⟨[97], by decide⟩ ⟨.v4 #v[10, 0, 0, 3], (0, 53)⟩ 1062]

theorem ttlMap_twoNames : TtlMap twoNames ∧
    dnsCacheLookup (cacheAfter twoNames) ⟨[97], by decide⟩ 1063 =
      some ⟨.v4 #v[10, 0, 0, 3], (0, 53)⟩ ∧
    dnsCacheLookup (cacheAfter twoNames) ⟨[98], by decide⟩ 1063 = none :=
  ⟨(ttlMap_iff _ (by decide)).mpr fun _ _ _ _ _ hpre =>
    putMeets_of_putsInPlace (by decide +kernel) hpre, by decide +kernel, by decide +kernel⟩

/-- Two calls for one name, as two workers make them that resolve it at the same time: the lookup
answers with the address of the first. -/
theorem second_put_is_hidden :
    dnsCacheLookup (cacheAfter [.put ⟨[97], by decide⟩ ⟨.v4 #v[10, 0, 0, 1], (0, 53)⟩ 1000,
        .put ⟨[97], by decide⟩ ⟨.v4 #v[10, 0, 0, 2], (0, 53)⟩ 1001]) ⟨[97], by decide⟩ 1002 =
      some ⟨.v4 #v[10, 0, 0, 1], (0, 53)⟩ ∧
    ¬ TtlMap [.put ⟨[97], by decide⟩ ⟨.v4 #v[10, 0, 0, 1], (0, 53)⟩ 1000,
        .put ⟨[97], by decide⟩ ⟨.v4 #v[10, 0, 0, 2], (0, 53)⟩ 1001] := by
  have hfirst : dnsCacheLookup (cacheAfter [.put ⟨[97], by decide⟩
      ⟨.v4 #v[10, 0, 0, 1], (0, 53)⟩ 1000, .put ⟨[97], by decide⟩
      ⟨.v4 #v[10, 0, 0, 2], (0, 53)⟩ 1001]) ⟨[97], by decide⟩ 1002 =
        some ⟨.v4 #v[10, 0, 0, 1], (0, 53)⟩ := by
    decide +kernel
  refine ⟨hfirst, fun h => ?_⟩
  have hlatest := (h.hit _ (List.prefix_refl _) _ 1002 (by decide) _ hfirst).2
  exact absurd hlatest (by decide)

end

end FiveGProxy
