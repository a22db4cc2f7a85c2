import FiveGProxy.Lookup.Model
import Mathlib.Logic.Function.Basic

/-!
# What a follower is answered

A follower takes its answer from the cache, where its leader has put it. Between the two steps the
entry is there like any other: a leader of another key may empty the cache, and a later leader of the
same key may overwrite the entry. A follower is certain of the answer of its leader as long as
neither happens.
-/

namespace FiveGProxy

open Steps

variable {K A : Type*}

def LookupPc.relies : LookupPc K A → Option ℕ
  | await leader | reread leader true => some leader
  | _ => none

def LookupPc.follows : LookupPc K A → Option ℕ
  | await leader | reread leader _ => some leader
  | _ => none

def LookupPc.done : LookupPc K A → Bool
  | returned .. | thrown => true
  | _ => false

theorem LookupPc.follows_of_relies {pc : LookupPc K A} {leader : ℕ} (h : pc.relies = some leader) :
    pc.follows = some leader := by
  cases pc with
  | await => exact h
  | reread _ inTime =>
      cases inTime with
      | true => exact h
      | false => cases h
  | _ => cases h

/-- The entry that each leader has put, and the leader whose latch each follower's wait has ended
with. -/
structure FlightLog (A : Type*) where
  stored : ℕ → Option (CacheEntry A)
  followed : ℕ → Option ℕ

def FlightLog.empty : FlightLog A := ⟨fun _ => none, fun _ => none⟩

/-- What the call may expect of the leader: the non-empty list that the leader has put, when it has
not expired for the call. -/
def FlightLog.promised (log : FlightLog A) (k : LookupCall K A) (leader : ℕ) :
    Option (CacheEntry A) :=
  (log.stored leader).filter fun e => !e.addresses.isEmpty && decide (k.nowMs < e.expiresAt)

namespace DnsLookups

variable [DecidableEq K]

def recordFlight (cfg : LookupConfig) (s : DnsLookups K A) (e : LookupEvent K A)
    (log : FlightLog A) : FlightLog A :=
  match e with
  | .go c =>
      match s.calls[c]? with
      | some ⟨_, nowMs, .put addresses, _⟩ =>
          { log with
            stored := Function.update log.stored c (some (entryOf cfg c nowMs addresses)) }
      | _ => log
  | .wake c true =>
      match s.calls[c]? with
      | some ⟨_, _, .await leader, _⟩ =>
          { log with followed := Function.update log.followed c (some leader) }
      | _ => log
  | _ => log

/-- Every follower whose wait has ended with the latch of its leader returns what the leader has put,
if this is a non-empty list that has not expired for it. -/
def FollowersAnswered (s : DnsLookups K A) (log : FlightLog A) : Prop :=
  ∀ (c : ℕ) (k : LookupCall K A) (leader : ℕ) (addresses : List A) (origin : Option ℕ)
    (e : CacheEntry A), s.calls[c]? = some k → log.followed c = some leader →
      k.pc = .returned addresses origin → log.promised k leader = some e → addresses = e.addresses

def Relied (s : DnsLookups K A) (log : FlightLog A) (key : K) : Prop :=
  ∃ k ∈ s.calls, k.key = key ∧ (k.pc.relies.bind (log.promised k)).isSome = true

instance (s : DnsLookups K A) (log : FlightLog A) (key : K) : Decidable (s.Relied log key) :=
  inferInstanceAs (Decidable (∃ k ∈ s.calls, _))

/-- The step neither takes out nor overwrites an entry that some call is still to read, and a call
that registers behind a leader whose entry has been put finds it in the cache. -/
def Keeps (p : DnsLookups K A × FlightLog A) : LookupEvent K A → Prop
  | .sweep _ key => ¬p.1.Relied p.2 key
  | .sweepClear d key =>
      match p.1.clears[d]? with
      | some (.cache _) => ¬p.1.Relied p.2 key
      | _ => True
  | .go c =>
      match p.1.calls[c]? with
      | some k =>
          match k.pc with
          | .put _ => ¬p.1.Relied p.2 k.key
          | .register =>
              ∀ e ∈ (p.1.inFlight.lookup k.key).bind (p.2.promised k),
                p.1.cache.lookup k.key = some e
          | _ => True
      | none => True
  | _ => True

instance [DecidableEq A] (p : DnsLookups K A × FlightLog A) : DecidablePred (Keeps p)
  | .sweep _ key => inferInstanceAs (Decidable ¬p.1.Relied p.2 key)
  | .sweepClear d key => by
      dsimp only [Keeps]
      split <;> infer_instance
  | .go c => by
      dsimp only [Keeps]
      repeat' split
      all_goals infer_instance
  | .call .. | .wake .. | .size .. | .answer .. | .clear | .goClear _ => isTrue trivial

/-! ### Leaders and followers -/

variable {s : DnsLookups K A} {log : FlightLog A}

/-- What holds of the two maps, the calls and the record. -/
structure Flight (s : DnsLookups K A) (log : FlightLog A) : Prop where
  inFlight : ∀ (key : K) (c : ℕ), s.inFlight.lookup key = some c →
    ∃ l, s.calls[c]? = some l ∧ l.key = key
  follows : ∀ (c : ℕ) (k : LookupCall K A) (leader : ℕ), s.calls[c]? = some k →
    k.pc.follows = some leader → ∃ l, s.calls[leader]? = some l ∧ l.key = k.key
  latch : ∀ (c : ℕ) (k : LookupCall K A), s.calls[c]? = some k → k.latch = true → k.pc.done = true
  inTime : ∀ (c : ℕ) (k : LookupCall K A) (leader : ℕ), s.calls[c]? = some k →
    k.pc = .reread leader true → s.latchDown leader = true ∧ log.followed c = some leader
  followed : ∀ (c leader : ℕ), log.followed c = some leader → s.latchDown leader = true ∧
    ∃ k, s.calls[c]? = some k ∧ (k.pc = .reread leader true ∨ k.pc.done = true)
  served : ∀ (c : ℕ) (k : LookupCall K A) (leader : ℕ) (e : CacheEntry A), s.calls[c]? = some k →
    k.pc.relies = some leader → log.promised k leader = some e → s.cache.lookup k.key = some e
  answered : s.FollowersAnswered log

theorem Flight.init : Flight (DnsLookups.init : DnsLookups K A) .empty where
  inFlight := by rintro _ _ ⟨⟩
  follows := by rintro _ _ _ ⟨⟩
  latch := by rintro _ _ ⟨⟩
  inTime := by rintro _ _ _ ⟨⟩
  followed := by rintro _ _ ⟨⟩
  served := by rintro _ _ _ _ ⟨⟩
  answered := by rintro _ _ _ _ _ _ ⟨⟩

theorem Flight.followed_eq_none (h : Flight s log) {c : ℕ} {k : LookupCall K A}
    (hk : s.calls[c]? = some k) (hpc : ∀ leader, k.pc ≠ .reread leader true)
    (hdone : k.pc.done = false) : log.followed c = none := by
  cases hf : log.followed c with
  | none => rfl
  | some leader =>
      obtain ⟨-, k', hk', hor⟩ := h.followed c leader hf
      obtain rfl := Option.some.inj (hk'.symm.trans hk)
      rcases hor with hreread | hdone'
      · exact absurd hreread (hpc leader)
      · rw [hdone] at hdone'
        cases hdone'

theorem Flight.move (h : Flight s log) {log' : FlightLog A} {c : ℕ} {k k' : LookupCall K A}
    {pc : LookupPc K A} (hk : s.calls[c]? = some k)
    (hk' : k' = k ∨ k' = { k with latch := true } ∧ pc.done = true)
    (hstored : log'.stored = log.stored)
    (hothers : ∀ d, d ≠ c → log'.followed d = log.followed d)
    (hdone : k.latch = true → pc.done = true)
    (hfollows : ∀ leader, pc.follows = some leader → ∃ l, s.calls[leader]? = some l ∧ l.key = k.key)
    (hinTime : ∀ leader, pc = .reread leader true →
      s.latchDown leader = true ∧ log'.followed c = some leader)
    (hfollowed : ∀ leader, log'.followed c = some leader →
      s.latchDown leader = true ∧ (pc = .reread leader true ∨ pc.done = true))
    (hserved : ∀ leader e, pc.relies = some leader → log.promised k leader = some e →
      s.cache.lookup k.key = some e)
    (hanswered : ∀ leader addresses origin e, log'.followed c = some leader →
      pc = .returned addresses origin → log.promised k leader = some e → addresses = e.addresses) :
    Flight (s.goto c k' pc) log' := by
  have hkey : k'.key = k.key := by rcases hk' with rfl | ⟨rfl, -⟩ <;> rfl
  have hsame : ∀ (l : LookupCall K A) leader, log'.promised l leader = log.promised l leader := by
    intro l leader
    rw [FlightLog.promised, hstored, FlightLog.promised]
  have hpromised : ∀ leader, log.promised { k' with pc := pc } leader = log.promised k leader := by
    intro leader
    rcases hk' with rfl | ⟨rfl, -⟩ <;> rfl
  have hlatch : k.latch = true → k'.latch = true := by
    rcases hk' with rfl | ⟨rfl, -⟩
    · exact id
    · exact fun _ => rfl
  have hcall : ∀ (d : ℕ) (l : LookupCall K A), s.calls[d]? = some l →
      ∃ l', (s.goto c k' pc).calls[d]? = some l' ∧ l'.key = l.key ∧
        (l.latch = true → l'.latch = true) := by
    intro d l hl
    by_cases hd : d = c
    · subst hd
      obtain rfl := Option.some.inj (hl.symm.trans hk)
      exact ⟨_, goto_self hk, hkey, hlatch⟩
    · exact ⟨l, (goto_of_ne hd).trans hl, rfl, id⟩
  have hdown : ∀ d, s.latchDown d = true → (s.goto c k' pc).latchDown d = true := by
    intro d hd
    obtain ⟨l, hl, hlatch'⟩ := latchDown_iff.mp hd
    obtain ⟨l', hl', -, hmono⟩ := hcall d l hl
    exact latchDown_iff.mpr ⟨l', hl', hmono hlatch'⟩
  have hleader : ∀ (leader : ℕ) (key : K),
      (∃ l : LookupCall K A, s.calls[leader]? = some l ∧ l.key = key) →
        ∃ l, (s.goto c k' pc).calls[leader]? = some l ∧ l.key = key := by
    rintro leader key ⟨l, hl, rfl⟩
    obtain ⟨l', hl', hlkey, -⟩ := hcall leader l hl
    exact ⟨l', hl', hlkey⟩
  refine ⟨fun key d hd => hleader d key (h.inFlight key d hd), fun d l leader hl hf => ?_,
    fun d l hl hlatch' => ?_, fun d l leader hl hpc => ?_, fun d leader hf => ?_,
    fun d l leader e hl hr he => ?_, fun d l leader addresses origin e hl hf hpc he => ?_⟩
  · rcases goto_calls hk hl with ⟨rfl, rfl⟩ | ⟨-, hold⟩
    · exact hleader leader _ (hkey ▸ hfollows leader hf)
    · exact hleader leader _ (h.follows d l leader hold hf)
  · rcases goto_calls hk hl with ⟨rfl, rfl⟩ | ⟨-, hold⟩
    · rcases hk' with rfl | ⟨rfl, hpc⟩
      · exact hdone hlatch'
      · exact hpc
    · exact h.latch d l hold hlatch'
  · rcases goto_calls hk hl with ⟨rfl, rfl⟩ | ⟨hd, hold⟩
    · exact (hinTime leader hpc).imp_left (hdown leader)
    · rw [hothers d hd]
      exact (h.inTime d l leader hold hpc).imp_left (hdown leader)
  · by_cases hd : d = c
    · subst hd
      obtain ⟨hlatch', hor⟩ := hfollowed leader hf
      exact ⟨hdown leader hlatch', _, goto_self hk, hor⟩
    · rw [hothers d hd] at hf
      obtain ⟨hlatch', l, hl, hor⟩ := h.followed d leader hf
      exact ⟨hdown leader hlatch', l, (goto_of_ne hd).trans hl, hor⟩
  · rw [hsame] at he
    rcases goto_calls hk hl with ⟨rfl, rfl⟩ | ⟨-, hold⟩
    · rw [hpromised] at he
      exact hkey ▸ hserved leader e hr he
    · exact h.served d l leader e hold hr he
  · rw [hsame] at he
    rcases goto_calls hk hl with ⟨rfl, rfl⟩ | ⟨hd, hold⟩
    · rw [hpromised] at he
      exact hanswered leader addresses origin e hf hpc he
    · rw [hothers d hd] at hf
      exact h.answered d l leader addresses origin e hold hf hpc he

theorem Flight.moveLeader (h : Flight s log) {c : ℕ} {k k' : LookupCall K A} {pc : LookupPc K A}
    (hk : s.calls[c]? = some k) (hk' : k' = k ∨ k' = { k with latch := true } ∧ pc.done = true)
    (hold : k.pc.follows = none) (hdone : k.pc.done = false) (hnew : pc.follows = none) :
    Flight (s.goto c k' pc) log := by
  have hnone : log.followed c = none := by
    refine h.followed_eq_none hk (fun leader hpc => ?_) hdone
    rw [hpc] at hold
    cases hold
  have hnever : ∀ leader, log.followed c ≠ some leader := fun leader hf => by
    rw [hnone] at hf
    cases hf
  refine h.move hk hk' rfl (fun _ _ => rfl) (fun hlatch => ?_) (fun leader hf => ?_)
    (fun leader hpc => ?_)
    (fun leader hf => absurd hf (hnever leader)) (fun leader e hr => ?_)
    fun leader _ _ _ hf => absurd hf (hnever leader)
  · rw [h.latch c k hk hlatch] at hdone
    cases hdone
  · rw [hnew] at hf
    cases hf
  · rw [hpc] at hnew
    cases hnew
  · rw [LookupPc.follows_of_relies hr] at hnew
    cases hnew

theorem Flight.setCache (h : Flight s log) {cache : AList fun _ : K => CacheEntry A}
    (hcache : ∀ key, s.Relied log key → cache.lookup key = s.cache.lookup key) :
    Flight { s with cache := cache } log where
  inFlight := h.inFlight
  follows := h.follows
  latch := h.latch
  inTime := h.inTime
  followed := h.followed
  served := by
    intro c k leader e hk hr he
    refine (hcache k.key ⟨k, List.mem_of_getElem? hk, rfl, ?_⟩).trans (h.served c k leader e hk hr he)
    rw [hr, Option.bind_some, he]
    rfl
  answered := h.answered

theorem lookup_erase_of_not_relied {key : K} (hkeep : ¬s.Relied log key) (key' : K)
    (h : s.Relied log key') : (s.cache.erase key).lookup key' = s.cache.lookup key' := by
  apply AList.lookup_erase_ne
  rintro rfl
  exact hkeep h

theorem Flight.setInFlight (h : Flight s log) {inFlight : AList fun _ : K => ℕ}
    (hin : ∀ key c, inFlight.lookup key = some c →
      s.inFlight.lookup key = some c ∨ ∃ l, s.calls[c]? = some l ∧ l.key = key) :
    Flight { s with inFlight := inFlight } log where
  inFlight := fun key c hc => (hin key c hc).elim (h.inFlight key c) id
  follows := h.follows
  latch := h.latch
  inTime := h.inTime
  followed := h.followed
  served := h.served
  answered := h.answered

theorem Flight.setClears (h : Flight s log) (clears : List (ClearPc K)) :
    Flight { s with clears := clears } log :=
  ⟨h.inFlight, h.follows, h.latch, h.inTime, h.followed, h.served, h.answered⟩

theorem Flight.put (h : Flight s log) (cfg : LookupConfig) {c : ℕ} {k : LookupCall K A}
    {addresses : List A} (hk : s.calls[c]? = some k) (hpc : k.pc = .put addresses)
    (hkeep : ¬s.Relied log k.key) :
    Flight { s with cache := s.cache.insert k.key (entryOf cfg c k.nowMs addresses) }
      { log with
        stored := Function.update log.stored c (some (entryOf cfg c k.nowMs addresses)) } where
  inFlight := h.inFlight
  follows := h.follows
  latch := h.latch
  inTime := h.inTime
  followed := h.followed
  served := by
    intro d l leader e hl hr he
    obtain ⟨l', hl', hkey⟩ := h.follows d l leader hl (LookupPc.follows_of_relies hr)
    by_cases hleader : leader = c
    · subst hleader
      obtain rfl := Option.some.inj (hl'.symm.trans hk)
      rw [← hkey, AList.lookup_insert]
      simp only [FlightLog.promised, Function.update_self] at he
      exact (Option.filter_eq_some_iff.mp he).1
    · have hold : log.promised l leader = some e := by
        simpa only [FlightLog.promised, Function.update_of_ne hleader] using he
      have hne : l.key ≠ k.key := fun heq => by
        refine hkeep ⟨l, List.mem_of_getElem? hl, heq, ?_⟩
        rw [hr, Option.bind_some, hold]
        rfl
      rw [AList.lookup_insert_ne hne]
      exact h.served d l leader e hl hr hold
  answered := by
    intro d l leader addresses' origin e hl hf hdone he
    have hne : leader ≠ c := by
      rintro rfl
      obtain ⟨hdown, -⟩ := h.followed d leader hf
      obtain ⟨l', hl', hlatch⟩ := latchDown_iff.mp hdown
      obtain rfl := Option.some.inj (hl'.symm.trans hk)
      have hpast := h.latch leader l' hl' hlatch
      rw [hpc] at hpast
      cases hpast
    refine h.answered d l leader addresses' origin e hl hf hdone ?_
    simpa only [FlightLog.promised, Function.update_of_ne hne] using he

/-! ### Every run -/

variable {cfg : LookupConfig} {t : DnsLookups K A}

theorem Flight.call (h : Flight s log) (key : K) (nowMs : Int64) :
    Flight { s with calls := s.calls ++ [⟨key, nowMs, .read, false⟩] } log := by
  have hdown : ∀ d, s.latchDown d = true →
      latchDown { s with calls := s.calls ++ [⟨key, nowMs, .read, false⟩] } d = true := by
    intro d hd
    obtain ⟨l, hl, hlatch⟩ := latchDown_iff.mp hd
    exact latchDown_iff.mpr ⟨l, append_calls_of_some hl, hlatch⟩
  refine ⟨fun key' d hd => ?_, fun d l leader hl hf => ?_, fun d l hl hlatch => ?_,
    fun d l leader hl hpc => ?_, fun d leader hf => ?_, fun d l leader e hl hr he => ?_,
    fun d l leader addresses origin e hl hf hpc he => ?_⟩
  · obtain ⟨l, hl, hkey⟩ := h.inFlight key' d hd
    exact ⟨l, append_calls_of_some hl, hkey⟩
  · rcases append_calls hl with hold | ⟨rfl, rfl⟩
    · obtain ⟨l', hl', hkey⟩ := h.follows d l leader hold hf
      exact ⟨l', append_calls_of_some hl', hkey⟩
    · cases hf
  · rcases append_calls hl with hold | ⟨rfl, rfl⟩
    · exact h.latch d l hold hlatch
    · cases hlatch
  · rcases append_calls hl with hold | ⟨rfl, rfl⟩
    · exact (h.inTime d l leader hold hpc).imp_left (hdown leader)
    · cases hpc
  · obtain ⟨hlatch, l, hl, hor⟩ := h.followed d leader hf
    exact ⟨hdown leader hlatch, l, append_calls_of_some hl, hor⟩
  · rcases append_calls hl with hold | ⟨rfl, rfl⟩
    · exact h.served d l leader e hold hr he
    · cases hr
  · rcases append_calls hl with hold | ⟨rfl, rfl⟩
    · exact h.answered d l leader addresses origin e hold hf hpc he
    · cases hpc

theorem Flight.follow (h : Flight s log) {c leader : ℕ} {k : LookupCall K A}
    (hk : s.calls[c]? = some k) (hpc : k.pc = .register)
    (hin : s.inFlight.lookup k.key = some leader)
    (hfound : ∀ e ∈ (s.inFlight.lookup k.key).bind (log.promised k),
      s.cache.lookup k.key = some e) : Flight (s.goto c k (.await leader)) log := by
  have hnone : log.followed c = none :=
    h.followed_eq_none hk (by rw [hpc]; exact nofun) (by rw [hpc]; rfl)
  have hnever : ∀ leader', log.followed c ≠ some leader' := by
    rw [hnone]
    exact nofun
  refine h.move hk (Or.inl rfl) rfl (fun _ _ => rfl) (fun hlatch => ?_) ?_ nofun
    (fun leader' hf => absurd hf (hnever leader')) ?_
    fun leader' _ _ _ hf => absurd hf (hnever leader')
  · have hdone := h.latch c k hk hlatch
    rw [hpc] at hdone
    cases hdone
  · rintro _ ⟨⟩
    exact h.inFlight k.key leader hin
  · rintro _ e ⟨⟩ he
    rw [hin] at hfound
    exact hfound e he

theorem Flight.wake (h : Flight s log) {c leader : ℕ} {k : LookupCall K A} {inTime : Bool}
    (hk : s.calls[c]? = some k) (hpc : k.pc = .await leader)
    (hlatch : inTime = true → s.latchDown leader = true) :
    Flight (s.goto c k (.reread leader inTime)) (recordFlight cfg s (.wake c inTime) log) := by
  obtain ⟨key, nowMs, pc, latch⟩ := k
  obtain rfl : pc = .await leader := hpc
  have hnone : log.followed c = none := h.followed_eq_none hk (by rintro _ ⟨⟩) rfl
  have hfollows : ∃ l, s.calls[leader]? = some l ∧ l.key = key := h.follows c _ leader hk rfl
  have hserved : ∀ e, log.promised ⟨key, nowMs, .await leader, latch⟩ leader = some e →
      s.cache.lookup key = some e := fun e he => h.served c _ leader e hk rfl he
  cases inTime with
  | false =>
      have hnever : ∀ leader', log.followed c ≠ some leader' := by
        rw [hnone]
        rintro _ ⟨⟩
      refine h.move hk (Or.inl rfl) rfl (fun _ _ => rfl) (h.latch c _ hk) ?_ (by rintro _ ⟨⟩)
        (fun leader' hf => absurd hf (hnever leader')) (by rintro _ _ ⟨⟩)
        fun leader' _ _ _ hf => absurd hf (hnever leader')
      rintro _ ⟨⟩
      exact hfollows
  | true =>
      simp only [recordFlight, hk]
      refine h.move hk (Or.inl rfl) rfl (fun d hd => Function.update_of_ne hd _ _) (h.latch c _ hk)
        ?_ ?_ (fun leader' hf => ?_) ?_ fun _ _ _ _ _ hpc => nomatch hpc
      · rintro _ ⟨⟩
        exact hfollows
      · rintro _ ⟨⟩
        exact ⟨hlatch rfl, Function.update_self c _ _⟩
      · simp only [Function.update_self] at hf
        cases hf
        exact ⟨hlatch rfl, Or.inl rfl⟩
      · rintro _ e ⟨⟩ he
        exact hserved e he

/-- A follower returns what it finds, which is what it has been promised. -/
theorem Flight.reread (h : Flight s log) {c leader : ℕ} {k : LookupCall K A} {inTime : Bool}
    {addresses : List A} {origin : Option ℕ} (hk : s.calls[c]? = some k)
    (hpc : k.pc = .reread leader inTime)
    (hread : ∀ e, s.hit k = some e → addresses = e.addresses) :
    Flight (s.goto c k (.returned addresses origin)) log := by
  refine h.move hk (Or.inl rfl) rfl (fun _ _ => rfl) (fun _ => rfl) (by rintro _ ⟨⟩)
    (by rintro _ ⟨⟩) (fun leader' hf => ?_)
    (by rintro _ _ ⟨⟩) fun leader' _ _ e hf hreturned he => ?_
  · exact ⟨(h.followed c leader' hf).1, Or.inr rfl⟩
  · cases hreturned
    obtain ⟨-, k', hk', hor⟩ := h.followed c leader' hf
    obtain rfl := Option.some.inj (hk'.symm.trans hk)
    have hreread : k'.pc = .reread leader' true := by
      refine hor.resolve_right fun hdone => ?_
      rw [hpc] at hdone
      cases hdone
    have hcached := h.served c k' leader' e hk (by rw [hreread]; rfl) he
    apply hread
    rw [FlightLog.promised, Option.filter_eq_some_iff, Bool.and_eq_true] at he
    rw [hit, hcached, Option.filter_eq_some_iff]
    exact ⟨rfl, he.2.2⟩

omit [DecidableEq K] in
/-- Of the steps that leave nothing open, only `put` is recorded. -/
theorem recordFlight_go {c : ℕ} {k : LookupCall K A} (hk : s.calls[c]? = some k)
    (hpc : ∀ addresses, k.pc ≠ .put addresses) : recordFlight cfg s (.go c) log = log := by
  obtain ⟨key, nowMs, pc, latch⟩ := k
  simp only [recordFlight, hk]
  split
  case h_1 addresses _ heq =>
    cases heq
    exact absurd rfl (hpc addresses)
  case h_2 => rfl

theorem Flight.step {e : LookupEvent K A} (h : Flight s log) (hkeep : Keeps (s, log) e)
    (ht : Transition cfg s e t) : Flight t (recordFlight cfg s e log) := by
  cases ht with
  | call key nowMs => exact h.call key nowMs
  | hit c k e hk hpc =>
      rw [recordFlight_go hk (by rw [hpc]; rintro _ ⟨⟩)]
      exact h.moveLeader hk (Or.inl rfl) (by rw [hpc]; rfl) (by rw [hpc]; rfl) rfl
  | miss c k hk hpc | swept c k hk hpc | invoke c k hk hpc | kept c k result hk hpc =>
      rw [recordFlight_go hk (by rw [hpc]; rintro _ ⟨⟩)]
      exact h.moveLeader hk (Or.inl rfl) (by rw [hpc]; rfl) (by rw [hpc]; rfl) rfl
  | follow c k leader hk hpc hin =>
      rw [recordFlight_go hk (by rw [hpc]; rintro _ ⟨⟩)]
      exact h.follow hk hpc hin (by simpa only [Keeps, hk, hpc] using hkeep)
  | lead c k hk hpc =>
      rw [recordFlight_go hk (by rw [hpc]; rintro _ ⟨⟩)]
      have hin : Flight { s with inFlight := s.inFlight.insert k.key c } log := by
        refine h.setInFlight fun key d hd => ?_
        by_cases hkey : key = k.key
        · subst hkey
          rw [AList.lookup_insert] at hd
          cases hd
          exact Or.inr ⟨k, hk, rfl⟩
        · exact Or.inl (by rwa [AList.lookup_insert_ne hkey] at hd)
      exact hin.moveLeader hk (Or.inl rfl) (by rw [hpc]; rfl) (by rw [hpc]; rfl) rfl
  | wake c k leader inTime hk hpc hlatch => exact h.wake hk hpc hlatch
  | rehit c k leader inTime e hk hpc he =>
      rw [recordFlight_go hk (by rw [hpc]; rintro _ ⟨⟩)]
      refine h.reread hk hpc fun e' he' => ?_
      rw [Option.some.inj (he'.symm.trans he)]
  | remiss c k leader inTime hk hpc he =>
      rw [recordFlight_go hk (by rw [hpc]; rintro _ ⟨⟩)]
      refine h.reread hk hpc fun e' he' => ?_
      rw [he] at he'
      cases he'
  | full c n k hk hpc | room c n k hk hpc =>
      exact h.moveLeader hk (Or.inl rfl) (by rw [hpc]; rfl) (by rw [hpc]; rfl) rfl
  | answered c k addresses hk hpc =>
      exact h.moveLeader hk (Or.inl rfl) (by rw [hpc]; rfl) (by rw [hpc]; rfl) rfl
  | threw c k hk hpc =>
      exact h.moveLeader hk (Or.inl rfl) (by rw [hpc]; rfl) (by rw [hpc]; rfl) rfl
  | sweep c key k todo hk hpc =>
      have hcache := h.setCache fun key' hrelied => lookup_erase_of_not_relied hkeep key' hrelied
      exact hcache.moveLeader hk (Or.inl rfl) (by rw [hpc]; rfl) (by rw [hpc]; rfl) rfl
  | put c k addresses hk hpc =>
      have hput := h.put cfg hk hpc (by simpa only [Keeps, hk, hpc] using hkeep)
      obtain ⟨key, nowMs, pc, latch⟩ := k
      obtain rfl : pc = .put addresses := hpc
      simp only [recordFlight, hk]
      exact hput.moveLeader hk (Or.inl rfl) rfl rfl rfl
  | removed c k result hk hpc =>
      rw [recordFlight_go hk (by rw [hpc]; rintro _ ⟨⟩)]
      have hin := h.setInFlight fun key d hd => Or.inl (lookup_of_lookup_erase k.key hd)
      exact hin.moveLeader hk (Or.inl rfl) (by rw [hpc]; rfl) (by rw [hpc]; rfl) rfl
  | countDown c k addresses hk hpc =>
      rw [recordFlight_go hk (by rw [hpc]; rintro _ ⟨⟩)]
      exact h.moveLeader hk (Or.inr ⟨rfl, rfl⟩) (by rw [hpc]; rfl) (by rw [hpc]; rfl) rfl
  | thrown c k hk hpc =>
      rw [recordFlight_go hk (by rw [hpc]; rintro _ ⟨⟩)]
      exact h.moveLeader hk (Or.inr ⟨rfl, rfl⟩) (by rw [hpc]; rfl) (by rw [hpc]; rfl) rfl
  | clear => exact h.setClears _
  | sweepCache d key todo hd =>
      have hnot : ¬s.Relied log key := by simpa only [Keeps, hd] using hkeep
      have hcache := h.setCache fun key' hrelied => lookup_erase_of_not_relied hnot key' hrelied
      exact hcache.setClears _
  | sweepInFlight d key todo hd =>
      have hin := h.setInFlight fun key' c hc => Or.inl (lookup_of_lookup_erase key hc)
      exact hin.setClears _
  | toInFlight d hd => exact h.setClears _
  | cleared d hd => exact h.setClears _

def flying (cfg : LookupConfig) : Step (DnsLookups K A × FlightLog A) (LookupEvent K A) :=
  record (step cfg) (recordFlight cfg)

end DnsLookups

open DnsLookups

/-- In every run in which no entry is taken out or overwritten while a call still relies on it, and
every call that registers behind a leader whose entry has been put finds it in the cache, every
follower returns the list of its leader. -/
theorem followers_answered [DecidableEq K] (cfg : LookupConfig) {es : List (LookupEvent K A)}
    {s : DnsLookups K A} {log : FlightLog A}
    (hmeets : Meets (flying cfg) Keeps (DnsLookups.init, .empty) es)
    (hrun : run (flying cfg) (DnsLookups.init, .empty) es = some (s, log)) :
    s.FollowersAnswered log := by
  have hflight : s.Flight log :=
    run_invariant_of_meets (P := fun p => p.1.Flight p.2)
      (fun p e q h hkeep hstep => by
        obtain ⟨ht, hlog⟩ := record_eq_some.mp hstep
        rw [← hlog]
        exact h.step hkeep (transition_of_step ht))
      Flight.init hmeets hrun
  exact hflight.answered

def leadAndFollow : List (LookupEvent ℕ ℕ) :=
  [.call 1 0, .call 1 0, .go 0, .go 1, .go 0, .go 1, .size 0 0, .go 0]

/-- The leader answers with the address 7 and counts its latch down, and the follower reads. -/
def answerFollower : List (LookupEvent ℕ ℕ) :=
  leadAndFollow ++ [.answer 0 (some [7]), .go 0, .go 0, .go 0, .wake 1 true, .go 1]

theorem followers_answered_two :
    ∃ s log, run (flying {}) (DnsLookups.init, .empty) answerFollower = some (s, log) ∧
      s.calls[1]? = some ⟨1, 0, .returned [7] (some 0), false⟩ ∧ log.followed 1 = some 0 ∧
        s.FollowersAnswered log := by
  obtain ⟨⟨s, log⟩, hrun, hreturned, hfollowed⟩ : ∃ p : DnsLookups ℕ ℕ × FlightLog ℕ,
      run (flying {}) (DnsLookups.init, .empty) answerFollower = some p ∧
        p.1.calls[1]? = some ⟨1, 0, .returned [7] (some 0), false⟩ ∧ p.2.followed 1 = some 0 :=
    exists_run_of_any (by decide +kernel)
  exact ⟨s, log, hrun, hreturned, hfollowed, followers_answered {} (by decide +kernel) hrun⟩

/-- The cache has room for one entry. Between the leader's `put` and the follower's read a leader of
key 2 empties it, and the follower returns the empty list. -/
def evictBetween : List (LookupEvent ℕ ℕ) :=
  leadAndFollow ++ [.call 2 0, .go 2, .go 2, .answer 0 (some [7]), .go 0, .size 2 1, .sweep 2 1,
    .go 0, .go 0, .wake 1 true, .go 1]

theorem follower_unanswered :
    ∃ s log, run (flying { maxEntries := 1 }) (DnsLookups.init, .empty) evictBetween = some (s, log) ∧
      log.stored 0 = some (entryOf { maxEntries := 1 } 0 0 [7]) ∧ log.followed 1 = some 0 ∧
        s.calls[1]? = some ⟨1, 0, .returned [] none, false⟩ ∧ ¬s.FollowersAnswered log := by
  obtain ⟨⟨s, log⟩, hrun, hstored, hfollowed, hreturned, hpromised⟩ :
      ∃ p : DnsLookups ℕ ℕ × FlightLog ℕ,
        run (flying { maxEntries := 1 }) (DnsLookups.init, .empty) evictBetween = some p ∧
          p.2.stored 0 = some (entryOf { maxEntries := 1 } 0 0 [7]) ∧ p.2.followed 1 = some 0 ∧
          p.1.calls[1]? = some ⟨1, 0, .returned [] none, false⟩ ∧
          p.2.promised (K := ℕ) ⟨1, 0, .returned [] none, false⟩ 0 =
            some (entryOf { maxEntries := 1 } 0 0 [7]) :=
    exists_run_of_any (by decide +kernel)
  refine ⟨s, log, hrun, hstored, hfollowed, hreturned, fun h => ?_⟩
  exact absurd (h 1 _ 0 [] none _ hreturned hfollowed rfl hpromised) (by decide)

end FiveGProxy
