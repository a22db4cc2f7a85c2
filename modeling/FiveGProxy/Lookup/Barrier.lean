import FiveGProxy.Lookup.Model
import Mathlib.Logic.Function.Basic

/-!
# Clearing the cache

`restartProxy` clears the cache because the addresses were resolved on a network that is gone. A
leader that is still at its `resolve` then goes on and puts what it is given, and later lookups are
answered from that entry. `clear` separates the old lists from the new ones as long as no leader puts
what it was given before a `clear` that has returned, and no `clear` returns with an entry in the
cache.
-/

namespace FiveGProxy

open Steps

variable {K A : Type*}

/-- The call has invoked `resolve` and is not out of the `try` block. -/
def LookupPc.leading : LookupPc K A → Bool
  | resolving | put _ | remove _ | countDown _ => true
  | _ => false

/-- The call does not invoke `resolve` any more. -/
def LookupPc.settled : LookupPc K A → Bool
  | returned .. | thrown => true
  | pc => pc.leading

/-- How many calls of `clear` have returned, now, when each call of `lookup` started, and when it
invoked `resolve`. -/
structure ClearLog where
  cleared : ℕ
  started : ℕ → ℕ
  invoked : ℕ → ℕ

def ClearLog.empty : ClearLog := ⟨0, fun _ => 0, fun _ => 0⟩

namespace DnsLookups

def recordClear (s : DnsLookups K A) (e : LookupEvent K A) (log : ClearLog) : ClearLog :=
  match e with
  | .call _ _ => { log with started := Function.update log.started s.calls.length log.cleared }
  | .go c =>
      match s.calls[c]? with
      | some ⟨_, _, .invoke, _⟩ => { log with invoked := Function.update log.invoked c log.cleared }
      | _ => log
  | .goClear d =>
      match s.clears[d]? with
      | some (.inFlight []) => { log with cleared := log.cleared + 1 }
      | _ => log
  | _ => log

/-- A list that is returned comes from a `resolve` that was invoked after every `clear` that had
returned when the lookup started; the list that comes from none is the empty list of a follower that
finds nothing. -/
def Fresh (s : DnsLookups K A) (log : ClearLog) : Prop :=
  ∀ (c : ℕ) (k : LookupCall K A) (addresses : List A) (origin : Option ℕ), s.calls[c]? = some k →
    k.pc = .returned addresses origin →
      match origin with
      | some o => log.started c ≤ log.invoked o
      | none => addresses = []

/-- What is put was asked for after the last `clear` that has returned, and a `clear` that returns
leaves nothing in the cache. -/
def Separates (p : DnsLookups K A × ClearLog) : LookupEvent K A → Prop
  | .go c =>
      match p.1.calls[c]? with
      | some ⟨_, _, .put _, _⟩ => p.2.invoked c = p.2.cleared
      | _ => True
  | .goClear d =>
      match p.1.clears[d]? with
      | some (.inFlight []) => p.1.cache.keys = []
      | _ => True
  | _ => True

instance [DecidableEq K] (p : DnsLookups K A × ClearLog) (e : LookupEvent K A) :
    Decidable (Separates p e) := by
  unfold Separates
  cases e <;> dsimp only <;> repeat' split
  all_goals infer_instance

variable [DecidableEq K] {s : DnsLookups K A} {log : ClearLog}

/-- The call has come past its `resolve`. -/
def Settled (s : DnsLookups K A) (o : ℕ) : Prop :=
  ∃ l, s.calls[o]? = some l ∧ l.pc.settled = true

structure Cleared (s : DnsLookups K A) (log : ClearLog) : Prop where
  entry : ∀ (key : K) (e : CacheEntry A), s.cache.lookup key = some e →
    s.Settled e.origin ∧ log.invoked e.origin = log.cleared
  started : ∀ (c : ℕ) (k : LookupCall K A), s.calls[c]? = some k → log.started c ≤ log.cleared
  leading : ∀ (c : ℕ) (k : LookupCall K A), s.calls[c]? = some k → k.pc.leading = true →
    log.started c ≤ log.invoked c
  origin : ∀ (c : ℕ) (k : LookupCall K A) (addresses : List A) (o : ℕ), s.calls[c]? = some k →
    k.pc = .returned addresses (some o) → s.Settled o
  fresh : s.Fresh log

theorem Cleared.init : Cleared (DnsLookups.init : DnsLookups K A) .empty where
  entry := nofun
  started := nofun
  leading := nofun
  origin := nofun
  fresh := nofun

theorem Cleared.move (h : Cleared s log) {c : ℕ} {k k' : LookupCall K A} {pc : LookupPc K A}
    (hk : s.calls[c]? = some k) (hsettled : k.pc.settled = true → pc.settled = true)
    (hleading : pc.leading = true → k.pc.leading = true)
    (hreturned : ∀ addresses origin, pc = .returned addresses origin →
      match origin with
      | some o => (o = c ∧ k.pc.leading = true) ∨ s.Settled o ∧ log.started c ≤ log.invoked o
      | none => addresses = []) : Cleared (s.goto c k' pc) log := by
  have hkeep : ∀ o, s.Settled o → (s.goto c k' pc).Settled o := by
    rintro o ⟨l, hl, hl'⟩
    by_cases ho : o = c
    · subst ho
      obtain rfl := Option.some.inj (hl.symm.trans hk)
      exact ⟨_, goto_self hk, hsettled hl'⟩
    · exact ⟨l, (goto_of_ne ho).trans hl, hl'⟩
  refine ⟨fun key e he => (h.entry key e he).imp_left (hkeep _), fun d l hl => ?_,
    fun d l hl hpc => ?_, fun d l addresses o hl hpc => ?_, fun d l addresses origin hl hpc => ?_⟩
  · rcases goto_calls hk hl with ⟨rfl, -⟩ | ⟨-, hold⟩
    · exact h.started d k hk
    · exact h.started d l hold
  · rcases goto_calls hk hl with ⟨rfl, rfl⟩ | ⟨-, hold⟩
    · exact h.leading d k hk (hleading hpc)
    · exact h.leading d l hold hpc
  · rcases goto_calls hk hl with ⟨rfl, rfl⟩ | ⟨-, hold⟩
    · rcases hreturned addresses (some o) hpc with ⟨rfl, -⟩ | ⟨hset, -⟩
      · refine ⟨_, goto_self hk, ?_⟩
        rw [show pc = _ from hpc]
        rfl
      · exact hkeep o hset
    · exact hkeep o (h.origin d l addresses o hold hpc)
  · rcases goto_calls hk hl with ⟨rfl, rfl⟩ | ⟨-, hold⟩
    · have hret := hreturned addresses origin hpc
      cases origin with
      | none => exact hret
      | some o =>
          rcases hret with ⟨rfl, hlead⟩ | ⟨-, hle⟩
          · exact h.leading _ k hk hlead
          · exact hle
    · exact h.fresh d l addresses origin hold hpc

theorem Cleared.advance (h : Cleared s log) {c : ℕ} {k k' : LookupCall K A} {pc : LookupPc K A}
    (hk : s.calls[c]? = some k) (hsettled : k.pc.settled = true → pc.settled = true)
    (hleading : pc.leading = true → k.pc.leading = true)
    (hpc : ∀ addresses origin, pc ≠ .returned addresses origin) : Cleared (s.goto c k' pc) log :=
  h.move hk hsettled hleading fun addresses origin heq => absurd heq (hpc addresses origin)

/-- The entries of the new cache are those of the old one, or new ones. -/
theorem Cleared.setCache (h : Cleared s log) {cache : AList fun _ : K => CacheEntry A}
    (hcache : ∀ key e, cache.lookup key = some e → s.cache.lookup key = some e ∨
      s.Settled e.origin ∧ log.invoked e.origin = log.cleared) :
    Cleared { s with cache := cache } log where
  entry := fun key e he => (hcache key e he).elim (h.entry key e) id
  started := h.started
  leading := h.leading
  origin := h.origin
  fresh := h.fresh

theorem Cleared.found (h : Cleared s log) {c : ℕ} {k : LookupCall K A} {e : CacheEntry A}
    (hk : s.calls[c]? = some k) (he : s.hit k = some e) :
    s.Settled e.origin ∧ log.started c ≤ log.invoked e.origin := by
  obtain ⟨hset, hinvoked⟩ := h.entry k.key e (Option.filter_eq_some_iff.mp he).1
  exact ⟨hset, hinvoked ▸ h.started c k hk⟩

theorem Cleared.call (h : Cleared s log) (key : K) (nowMs : Int64) :
    Cleared { s with calls := s.calls ++ [⟨key, nowMs, .read, false⟩] }
      (recordClear s (.call key nowMs) log) := by
  have hold : ∀ (d : ℕ) (l : LookupCall K A), s.calls[d]? = some l →
      Function.update log.started s.calls.length log.cleared d = log.started d := by
    intro d l hl
    exact Function.update_of_ne (Nat.ne_of_lt (List.getElem?_eq_some_iff.mp hl).1) _ _
  have hkeep : ∀ o, s.Settled o →
      Settled { s with calls := s.calls ++ [⟨key, nowMs, .read, false⟩] } o := by
    rintro o ⟨l, hl, hl'⟩
    exact ⟨l, append_calls_of_some hl, hl'⟩
  refine ⟨fun key' e he => (h.entry key' e he).imp_left (hkeep _), fun d l hl => ?_,
    fun d l hl hpc => ?_, fun d l addresses o hl hpc => ?_, fun d l addresses origin hl hpc => ?_⟩
  · rcases append_calls hl with hl | ⟨rfl, -⟩
    · simp only [recordClear, hold d l hl]
      exact h.started d l hl
    · simp only [recordClear, Function.update_self, Nat.le_refl]
  · rcases append_calls hl with hl | ⟨rfl, rfl⟩
    · simp only [recordClear, hold d l hl]
      exact h.leading d l hl hpc
    · cases hpc
  · rcases append_calls hl with hl | ⟨rfl, rfl⟩
    · exact hkeep o (h.origin d l addresses o hl hpc)
    · cases hpc
  · rcases append_calls hl with hl | ⟨rfl, rfl⟩
    · have hfresh := h.fresh d l addresses origin hl hpc
      simp only [recordClear, hold d l hl]
      exact hfresh
    · cases hpc

/-- A leader invokes `resolve`: no list comes from it yet. -/
theorem Cleared.invoke (h : Cleared s log) {c : ℕ} {k : LookupCall K A}
    (hk : s.calls[c]? = some k) (hpc : k.pc = .invoke) :
    Cleared (s.goto c k .resolving)
      { log with invoked := Function.update log.invoked c log.cleared } := by
  have hne : ∀ o, s.Settled o → o ≠ c := by
    rintro o ⟨l, hl, hl'⟩ rfl
    obtain rfl := Option.some.inj (hl.symm.trans hk)
    rw [hpc] at hl'
    cases hl'
  have hold : ∀ o, s.Settled o → Function.update log.invoked c log.cleared o = log.invoked o :=
    fun o ho => Function.update_of_ne (hne o ho) _ _
  have hkeep : ∀ o, s.Settled o → (s.goto c k .resolving).Settled o := by
    rintro o ⟨l, hl, hl'⟩
    exact ⟨l, (goto_of_ne (hne o ⟨l, hl, hl'⟩)).trans hl, hl'⟩
  refine ⟨fun key e he => ?_, fun d l hl => ?_, fun d l hl hlead => ?_,
    fun d l addresses o hl hret => ?_, fun d l addresses origin hl hret => ?_⟩
  · obtain ⟨hset, hinvoked⟩ := h.entry key e he
    exact ⟨hkeep _ hset, (hold _ hset).trans hinvoked⟩
  · rcases goto_calls hk hl with ⟨rfl, -⟩ | ⟨-, hl⟩
    · exact h.started d k hk
    · exact h.started d l hl
  · rcases goto_calls hk hl with ⟨rfl, rfl⟩ | ⟨hd, hl⟩
    · simp only [Function.update_self]
      exact h.started d k hk
    · simp only [Function.update_of_ne hd]
      exact h.leading d l hl hlead
  · rcases goto_calls hk hl with ⟨rfl, rfl⟩ | ⟨-, hl⟩
    · cases hret
    · exact hkeep o (h.origin d l addresses o hl hret)
  · rcases goto_calls hk hl with ⟨rfl, rfl⟩ | ⟨-, hl⟩
    · cases hret
    · have hfresh := h.fresh d l addresses origin hl hret
      cases origin with
      | none => exact hfresh
      | some o =>
          have ho := hold o (h.origin d l addresses o hl hret)
          dsimp only at hfresh ⊢
          rwa [ho]

/-- A `clear` returns, with an empty cache. -/
theorem Cleared.cleared (h : Cleared s log) (clears : List (ClearPc K)) (hempty : s.cache.keys = []) :
    Cleared { s with clears := clears } { log with cleared := log.cleared + 1 } where
  entry := by
    intro key e he
    have hmem : key ∈ s.cache.keys := by
      rw [← AList.mem_keys, ← AList.lookup_isSome, he]
      rfl
    rw [hempty] at hmem
    exact absurd hmem List.not_mem_nil
  started := fun c k hk => Nat.le_succ_of_le (h.started c k hk)
  leading := h.leading
  origin := h.origin
  fresh := h.fresh

omit [DecidableEq K] in
/-- Of the steps that leave nothing open, only the call of `resolve` is recorded. -/
theorem recordClear_go {c : ℕ} {k : LookupCall K A} (hk : s.calls[c]? = some k)
    (hpc : k.pc ≠ .invoke) : recordClear s (.go c) log = log := by
  obtain ⟨key, nowMs, pc, latch⟩ := k
  simp only [recordClear, hk]
  split
  case h_1 heq =>
    cases heq
    exact absurd rfl hpc
  case h_2 => rfl

variable {cfg : LookupConfig} {t : DnsLookups K A}

theorem Cleared.step {e : LookupEvent K A} (h : Cleared s log) (hsep : Separates (s, log) e)
    (ht : Transition cfg s e t) : Cleared t (recordClear s e log) := by
  cases ht with
  | call key nowMs => exact h.call key nowMs
  | hit c k e hk hpc he =>
      rw [recordClear_go hk (by rw [hpc]; rintro ⟨⟩)]
      refine h.move hk (fun _ => rfl) (by rintro ⟨⟩) ?_
      rintro _ _ ⟨⟩
      exact Or.inr (h.found hk he)
  | rehit c k leader inTime e hk hpc he =>
      rw [recordClear_go hk (by rw [hpc]; rintro ⟨⟩)]
      refine h.move hk (fun _ => rfl) (by rintro ⟨⟩) ?_
      rintro _ _ ⟨⟩
      exact Or.inr (h.found hk he)
  | remiss c k leader inTime hk hpc he =>
      rw [recordClear_go hk (by rw [hpc]; rintro ⟨⟩)]
      refine h.move hk (fun _ => rfl) (by rintro ⟨⟩) ?_
      rintro _ _ ⟨⟩
      rfl
  | countDown c k addresses hk hpc =>
      rw [recordClear_go hk (by rw [hpc]; rintro ⟨⟩)]
      refine h.move hk (fun _ => rfl) (by rintro ⟨⟩) ?_
      rintro _ _ ⟨⟩
      exact Or.inl ⟨rfl, by rw [hpc]; rfl⟩
  | miss c k hk hpc | follow c k leader hk hpc hin | swept c k hk hpc =>
      rw [recordClear_go hk (by rw [hpc]; rintro ⟨⟩)]
      exact h.advance hk (by rw [hpc]; rintro ⟨⟩) (by rintro ⟨⟩) (by rintro _ _ ⟨⟩)
  | kept c k result hk hpc | thrown c k hk hpc =>
      rw [recordClear_go hk (by rw [hpc]; rintro ⟨⟩)]
      exact h.advance hk (fun _ => rfl) (fun _ => by rw [hpc]; rfl) (by rintro _ _ ⟨⟩)
  | lead c k hk hpc =>
      rw [recordClear_go hk (by rw [hpc]; rintro ⟨⟩)]
      have hin : Cleared { s with inFlight := s.inFlight.insert k.key c } log :=
        ⟨h.entry, h.started, h.leading, h.origin, h.fresh⟩
      exact hin.advance hk (by rw [hpc]; rintro ⟨⟩) (by rintro ⟨⟩) (by rintro _ _ ⟨⟩)
  | removed c k result hk hpc =>
      rw [recordClear_go hk (by rw [hpc]; rintro ⟨⟩)]
      have hin : Cleared { s with inFlight := s.inFlight.erase k.key } log :=
        ⟨h.entry, h.started, h.leading, h.origin, h.fresh⟩
      exact hin.advance hk (fun _ => rfl) (fun _ => by rw [hpc]; rfl) (by rintro _ _ ⟨⟩)
  | wake c k leader inTime hk hpc =>
      exact h.advance hk (by rw [hpc]; rintro ⟨⟩) (by rintro ⟨⟩) (by rintro _ _ ⟨⟩)
  | full c n k hk hpc | room c n k hk hpc =>
      exact h.advance hk (by rw [hpc]; rintro ⟨⟩) (by rintro ⟨⟩) (by rintro _ _ ⟨⟩)
  | sweep c key k todo hk hpc =>
      have hcache := h.setCache fun key' e he => Or.inl (lookup_of_lookup_erase key he)
      exact hcache.advance hk (by rw [hpc]; rintro ⟨⟩) (by rintro ⟨⟩) (by rintro _ _ ⟨⟩)
  | invoke c k hk hpc =>
      obtain ⟨key, nowMs, pc, latch⟩ := k
      obtain rfl : pc = .invoke := hpc
      simp only [recordClear, hk]
      exact h.invoke hk rfl
  | answered c k addresses hk hpc =>
      exact h.advance hk (fun _ => rfl) (fun _ => by rw [hpc]; rfl) (by rintro _ _ ⟨⟩)
  | threw c k hk hpc =>
      exact h.advance hk (fun _ => rfl) (fun _ => by rw [hpc]; rfl) (by rintro _ _ ⟨⟩)
  | put c k addresses hk hpc =>
      rw [recordClear_go hk (by rw [hpc]; rintro ⟨⟩)]
      have hinvoked : log.invoked c = log.cleared := by
        obtain ⟨key, nowMs, pc, latch⟩ := k
        obtain rfl : pc = .put addresses := hpc
        simpa only [Separates, hk] using hsep
      have hcache : Cleared
          { s with cache := s.cache.insert k.key (entryOf cfg c k.nowMs addresses) } log := by
        refine h.setCache fun key e he => ?_
        by_cases hkey : key = k.key
        · subst hkey
          rw [AList.lookup_insert] at he
          cases he
          exact Or.inr ⟨⟨k, hk, by rw [hpc]; rfl⟩, hinvoked⟩
        · exact Or.inl (by rwa [AList.lookup_insert_ne hkey] at he)
      exact hcache.advance hk (fun _ => rfl) (fun _ => by rw [hpc]; rfl) (by rintro _ _ ⟨⟩)
  | clear => exact ⟨h.entry, h.started, h.leading, h.origin, h.fresh⟩
  | sweepCache d key todo hd =>
      have hcache := h.setCache fun key' e he => Or.inl (lookup_of_lookup_erase key he)
      exact ⟨hcache.entry, h.started, h.leading, h.origin, h.fresh⟩
  | sweepInFlight d key todo hd => exact ⟨h.entry, h.started, h.leading, h.origin, h.fresh⟩
  | toInFlight d hd =>
      simp only [recordClear, hd]
      exact ⟨h.entry, h.started, h.leading, h.origin, h.fresh⟩
  | cleared d hd =>
      have hempty : s.cache.keys = [] := by simpa only [Separates, hd] using hsep
      simp only [recordClear, hd]
      exact h.cleared _ hempty

def clearing (cfg : LookupConfig) : Step (DnsLookups K A × ClearLog) (LookupEvent K A) :=
  record (step cfg) recordClear

end DnsLookups

open DnsLookups

/-- In every run in which no leader puts a list that it asked for before a `clear` that has returned,
and no `clear` returns with an entry in the cache, every list that a lookup returns was asked for
after the `clear`s that had returned before the lookup. -/
theorem clear_separates [DecidableEq K] (cfg : LookupConfig) {es : List (LookupEvent K A)}
    {s : DnsLookups K A} {log : ClearLog}
    (hmeets : Meets (clearing cfg) Separates (DnsLookups.init, .empty) es)
    (hrun : run (clearing cfg) (DnsLookups.init, .empty) es = some (s, log)) : s.Fresh log := by
  have hcleared : s.Cleared log :=
    run_invariant_of_meets (P := fun p => p.1.Cleared p.2)
      (fun p e q h hsep hstep => by
        obtain ⟨ht, hlog⟩ := record_eq_some.mp hstep
        rw [← hlog]
        exact h.step hsep (transition_of_step ht))
      Cleared.init hmeets hrun
  exact hcleared.fresh

/-- A lookup is answered, a `clear` empties both maps, and the same name is looked up again. -/
def lookUpAcross : List (LookupEvent ℕ ℕ) :=
  [.call 1 0, .go 0, .go 0, .size 0 0, .go 0, .answer 0 (some [7]), .go 0, .go 0, .go 0,
    .clear, .sweepClear 0 1, .goClear 0, .goClear 0,
    .call 1 0, .go 1, .go 1, .size 1 0, .go 1, .answer 1 (some [8]), .go 1, .go 1, .go 1]

theorem clear_separates_two :
    ∃ s log, run (clearing {}) (DnsLookups.init, .empty) lookUpAcross = some (s, log) ∧
      s.calls[1]? = some ⟨1, 0, .returned [8] (some 1), true⟩ ∧ log.started 1 = 1 ∧
        s.Fresh log := by
  obtain ⟨⟨s, log⟩, hrun, hreturned, hstarted⟩ : ∃ p : DnsLookups ℕ ℕ × ClearLog,
      run (clearing {}) (DnsLookups.init, .empty) lookUpAcross = some p ∧
        p.1.calls[1]? = some ⟨1, 0, .returned [8] (some 1), true⟩ ∧ p.2.started 1 = 1 :=
    exists_run_of_any (by decide +kernel)
  exact ⟨s, log, hrun, hreturned, hstarted, clear_separates {} (by decide +kernel) hrun⟩

/-- A leader is at its `resolve` while the maps are cleared, and puts what it is given afterwards. A
lookup that starts then is answered with it. -/
def straddleClear : List (LookupEvent ℕ ℕ) :=
  [.call 1 0, .go 0, .go 0, .size 0 0, .go 0, .clear, .goClear 0, .sweepClear 0 1, .goClear 0,
    .answer 0 (some [7]), .go 0, .call 1 0, .go 1]

theorem cleared_list_returned :
    ∃ s log, run (clearing {}) (DnsLookups.init, .empty) straddleClear = some (s, log) ∧
      s.calls[1]? = some ⟨1, 0, .returned [7] (some 0), false⟩ ∧ log.started 1 = 1 ∧
        log.invoked 0 = 0 ∧ ¬s.Fresh log := by
  obtain ⟨⟨s, log⟩, hrun, hreturned, hstarted, hinvoked⟩ : ∃ p : DnsLookups ℕ ℕ × ClearLog,
      run (clearing {}) (DnsLookups.init, .empty) straddleClear = some p ∧
        p.1.calls[1]? = some ⟨1, 0, .returned [7] (some 0), false⟩ ∧ p.2.started 1 = 1 ∧
        p.2.invoked 0 = 0 :=
    exists_run_of_any (by decide +kernel)
  refine ⟨s, log, hrun, hreturned, hstarted, hinvoked, fun h => ?_⟩
  have hfresh := h 1 _ [7] (some 0) hreturned rfl
  dsimp only at hfresh
  rw [hstarted, hinvoked] at hfresh
  exact absurd hfresh (by decide)

end FiveGProxy
