import FiveGProxy.Library.Steps
import Mathlib.Data.List.AList

/-!
# The DNS cache of the service

`DnsCache.lookup` answers from a map of entries with an expiry. On a miss it looks for a query of the
same key in flight: the first call puts a latch there and resolves the name (the leader), the others
wait for that latch and then read the cache (the followers). `clear` empties both maps.

Each step is one operation of a map, of a latch or of the callback `resolve`, and any number of
threads call `lookup` and `clear`. `ConcurrentHashMap.clear` is not one step: it takes the keys out
one by one, and may take out what is put in meanwhile. What `resolve` returns, whether a wait ends
with the latch or before it, and what `size` returns while other threads change the map are left
open. The call that an entry comes from is not in the code.
-/

namespace FiveGProxy

open Steps

variable {K A : Type*}

/-- The parameters of the constructor. -/
structure LookupConfig where
  maxEntries : ℤ := 256
  positiveTtlMs : Int64 := 5 * 60 * 1000
  negativeTtlMs : Int64 := 3 * 1000

/-- An `Entry`, and the call whose `resolve` returned it. -/
structure CacheEntry (A : Type*) where
  addresses : List A
  expiresAt : Int64
  origin : ℕ
  deriving DecidableEq

/-- Where a call of `lookup` is. The result on the way out of the `try` block is `none` when `resolve`
throws. -/
inductive LookupPc (K A : Type*)
  /-- `cache[key]` -/
  | read
  /-- `inFlight.putIfAbsent(key, leaderLatch)` -/
  | register
  /-- `existing.await(followerWaitMs, MILLISECONDS)` -/
  | await (leader : ℕ)
  /-- `cache[key]` again, after the latch (`inTime`), the timeout or an interrupt. -/
  | reread (leader : ℕ) (inTime : Bool)
  /-- `cache.size >= maxEntries` -/
  | size
  /-- `cache.clear()` -/
  | evict (todo : List K)
  | invoke
  | resolving
  | put (addresses : List A)
  /-- `inFlight.remove(key, leaderLatch)` -/
  | remove (result : Option (List A))
  /-- `leaderLatch.countDown()` -/
  | countDown (result : Option (List A))
  | returned (addresses : List A) (origin : Option ℕ)
  | thrown
  deriving DecidableEq

/-- A call of `lookup`. -/
structure LookupCall (K A : Type*) where
  key : K
  nowMs : Int64
  pc : LookupPc K A
  /-- `leaderLatch` has been counted down. -/
  latch : Bool
  deriving DecidableEq

/-- Where a call of `clear` is. -/
inductive ClearPc (K : Type*)
  | cache (todo : List K)
  | inFlight (todo : List K)
  | returned

/-- A call is known by its place in `calls`, and its latch with it. -/
structure DnsLookups (K A : Type*) where
  cache : AList (fun _ : K => CacheEntry A)
  inFlight : AList (fun _ : K => ℕ)
  calls : List (LookupCall K A)
  clears : List (ClearPc K)

inductive LookupEvent (K A : Type*)
  | call (key : K) (nowMs : Int64)
  /-- The call takes a step that leaves nothing open. -/
  | go (c : ℕ)
  | wake (c : ℕ) (inTime : Bool)
  | size (c : ℕ) (n : ℕ)
  /-- `cache.clear()` in `lookup` takes out a key. -/
  | sweep (c : ℕ) (key : K)
  | answer (c : ℕ) (result : Option (List A))
  | clear
  /-- A `clear` of one of the maps in `clear` takes out a key. -/
  | sweepClear (d : ℕ) (key : K)
  | goClear (d : ℕ)

theorem lookup_of_lookup_erase {V : Type*} [DecidableEq K] {map : AList (fun _ : K => V)} (key : K)
    {key' : K} {v : V} (h : (map.erase key).lookup key' = some v) :
    map.lookup key' = some v := by
  by_cases hkey : key' = key
  · subst hkey
    rw [AList.lookup_erase] at h
    cases h
  · rwa [AList.lookup_erase_ne hkey] at h

namespace DnsLookups

def init : DnsLookups K A := ⟨∅, ∅, [], []⟩

def goto (s : DnsLookups K A) (c : ℕ) (k : LookupCall K A) (pc : LookupPc K A) : DnsLookups K A :=
  { s with calls := s.calls.set c { k with pc := pc } }

def latchDown (s : DnsLookups K A) (c : ℕ) : Bool := (s.calls[c]?).any LookupCall.latch

variable {s : DnsLookups K A}

theorem latchDown_iff {c : ℕ} :
    s.latchDown c = true ↔ ∃ k, s.calls[c]? = some k ∧ k.latch = true := by
  rw [latchDown, Option.any_eq_true]

theorem goto_calls {c d : ℕ} {k k₀ k' : LookupCall K A} {pc : LookupPc K A}
    (hk : s.calls[c]? = some k₀) (h : (s.goto c k pc).calls[d]? = some k') :
    d = c ∧ k' = { k with pc := pc } ∨ d ≠ c ∧ s.calls[d]? = some k' := by
  by_cases hd : d = c
  · subst hd
    obtain ⟨hlt, -⟩ := List.getElem?_eq_some_iff.mp hk
    rw [goto, List.getElem?_set_self hlt] at h
    exact Or.inl ⟨rfl, (Option.some.inj h).symm⟩
  · rw [goto, List.getElem?_set_ne (Ne.symm hd)] at h
    exact Or.inr ⟨hd, h⟩

theorem goto_self {c : ℕ} {k k₀ : LookupCall K A} {pc : LookupPc K A} (hk : s.calls[c]? = some k₀) :
    (s.goto c k pc).calls[c]? = some { k with pc := pc } :=
  List.getElem?_set_self (List.getElem?_eq_some_iff.mp hk).1

theorem goto_of_ne {c d : ℕ} {k : LookupCall K A} {pc : LookupPc K A} (h : d ≠ c) :
    (s.goto c k pc).calls[d]? = s.calls[d]? := List.getElem?_set_ne h.symm

theorem append_calls {d : ℕ} {k k' : LookupCall K A} (h : (s.calls ++ [k])[d]? = some k') :
    s.calls[d]? = some k' ∨ d = s.calls.length ∧ k' = k := by
  by_cases hd : d < s.calls.length
  · exact Or.inl (by rwa [List.getElem?_append_left hd] at h)
  · rw [List.getElem?_append_right (Nat.le_of_not_lt hd)] at h
    obtain ⟨hlt, heq⟩ := List.getElem?_eq_some_iff.mp h
    rw [List.length_singleton] at hlt
    exact Or.inr ⟨by omega, (List.mem_singleton.mp (heq ▸ List.getElem_mem hlt))⟩

theorem append_calls_of_some {d : ℕ} {k k' : LookupCall K A} (h : s.calls[d]? = some k') :
    (s.calls ++ [k])[d]? = some k' := by
  rwa [List.getElem?_append_left (List.getElem?_eq_some_iff.mp h).1]

/-- The entry that `put` stores for a call. -/
def entryOf (cfg : LookupConfig) (c : ℕ) (nowMs : Int64) (addresses : List A) : CacheEntry A where
  addresses := addresses
  expiresAt := if addresses ≠ [] then nowMs + cfg.positiveTtlMs else nowMs + cfg.negativeTtlMs
  origin := c

variable [DecidableEq K]

def hit (s : DnsLookups K A) (k : LookupCall K A) : Option (CacheEntry A) :=
  (s.cache.lookup k.key).filter fun e => decide (k.nowMs < e.expiresAt)

def goStep (cfg : LookupConfig) (s : DnsLookups K A) (c : ℕ) (k : LookupCall K A) :
    Option (DnsLookups K A) :=
  match k.pc with
  | .read =>
      match s.hit k with
      | some e => some (s.goto c k (.returned e.addresses (some e.origin)))
      | none => some (s.goto c k .register)
  | .register =>
      match s.inFlight.lookup k.key with
      | some leader => some (s.goto c k (.await leader))
      | none => some (goto { s with inFlight := s.inFlight.insert k.key c } c k .size)
  | .reread _ _ =>
      match s.hit k with
      | some e => some (s.goto c k (.returned e.addresses (some e.origin)))
      | none => some (s.goto c k (.returned [] none))
  | .evict [] => some (s.goto c k .invoke)
  | .invoke => some (s.goto c k .resolving)
  | .put addresses =>
      some (goto { s with cache := s.cache.insert k.key (entryOf cfg c k.nowMs addresses) } c k
        (.remove (some addresses)))
  | .remove result =>
      if s.inFlight.lookup k.key = some c then
        some (goto { s with inFlight := s.inFlight.erase k.key } c k (.countDown result))
      else some (s.goto c k (.countDown result))
  | .countDown (some addresses) =>
      some (s.goto c { k with latch := true } (.returned addresses (some c)))
  | .countDown none => some (s.goto c { k with latch := true } .thrown)
  | .await _ | .size | .evict (_ :: _) | .resolving | .returned _ _ | .thrown => none

def step (cfg : LookupConfig) (s : DnsLookups K A) : LookupEvent K A → Option (DnsLookups K A)
  | .call key nowMs => some { s with calls := s.calls ++ [⟨key, nowMs, .read, false⟩] }
  | .go c => (s.calls[c]?).bind fun k => s.goStep cfg c k
  | .wake c inTime => (s.calls[c]?).bind fun k =>
      match k.pc with
      | .await leader =>
          if inTime = true ∧ s.latchDown leader = false then none
          else some (s.goto c k (.reread leader inTime))
      | _ => none
  | .size c n => (s.calls[c]?).bind fun k =>
      match k.pc with
      | .size =>
          if cfg.maxEntries ≤ n then some (s.goto c k (.evict s.cache.keys))
          else some (s.goto c k .invoke)
      | _ => none
  | .sweep c key => (s.calls[c]?).bind fun k =>
      match k.pc with
      | .evict todo => some (goto { s with cache := s.cache.erase key } c k (.evict (todo.erase key)))
      | _ => none
  | .answer c result => (s.calls[c]?).bind fun k =>
      match k.pc with
      | .resolving =>
          match result with
          | some addresses => some (s.goto c k (.put addresses))
          | none => some (s.goto c k (.remove none))
      | _ => none
  | .clear => some { s with clears := s.clears ++ [.cache s.cache.keys] }
  | .sweepClear d key => (s.clears[d]?).bind fun pc =>
      match pc with
      | .cache todo =>
          some { s with
            cache := s.cache.erase key
            clears := s.clears.set d (.cache (todo.erase key)) }
      | .inFlight todo =>
          some { s with
            inFlight := s.inFlight.erase key
            clears := s.clears.set d (.inFlight (todo.erase key)) }
      | .returned => none
  | .goClear d => (s.clears[d]?).bind fun pc =>
      match pc with
      | .cache [] => some { s with clears := s.clears.set d (.inFlight s.inFlight.keys) }
      | .inFlight [] => some { s with clears := s.clears.set d .returned }
      | .cache (_ :: _) | .inFlight (_ :: _) | .returned => none

/-! ### What one step can do -/

inductive Transition (cfg : LookupConfig) (s : DnsLookups K A) :
    LookupEvent K A → DnsLookups K A → Prop
  | call (key nowMs) :
      Transition cfg s (.call key nowMs) { s with calls := s.calls ++ [⟨key, nowMs, .read, false⟩] }
  | hit (c k e) (hk : s.calls[c]? = some k) (hpc : k.pc = .read) (he : s.hit k = some e) :
      Transition cfg s (.go c) (s.goto c k (.returned e.addresses (some e.origin)))
  | miss (c k) (hk : s.calls[c]? = some k) (hpc : k.pc = .read) :
      Transition cfg s (.go c) (s.goto c k .register)
  | follow (c k leader) (hk : s.calls[c]? = some k) (hpc : k.pc = .register)
      (hin : s.inFlight.lookup k.key = some leader) :
      Transition cfg s (.go c) (s.goto c k (.await leader))
  | lead (c k) (hk : s.calls[c]? = some k) (hpc : k.pc = .register) :
      Transition cfg s (.go c) (goto { s with inFlight := s.inFlight.insert k.key c } c k .size)
  | wake (c k leader inTime) (hk : s.calls[c]? = some k) (hpc : k.pc = .await leader)
      (hlatch : inTime = true → s.latchDown leader = true) :
      Transition cfg s (.wake c inTime) (s.goto c k (.reread leader inTime))
  | rehit (c k leader inTime e) (hk : s.calls[c]? = some k) (hpc : k.pc = .reread leader inTime)
      (he : s.hit k = some e) :
      Transition cfg s (.go c) (s.goto c k (.returned e.addresses (some e.origin)))
  | remiss (c k leader inTime) (hk : s.calls[c]? = some k) (hpc : k.pc = .reread leader inTime)
      (he : s.hit k = none) : Transition cfg s (.go c) (s.goto c k (.returned [] none))
  | full (c n k) (hk : s.calls[c]? = some k) (hpc : k.pc = .size) :
      Transition cfg s (.size c n) (s.goto c k (.evict s.cache.keys))
  | room (c n k) (hk : s.calls[c]? = some k) (hpc : k.pc = .size) :
      Transition cfg s (.size c n) (s.goto c k .invoke)
  | sweep (c key k todo) (hk : s.calls[c]? = some k) (hpc : k.pc = .evict todo) :
      Transition cfg s (.sweep c key)
        (goto { s with cache := s.cache.erase key } c k (.evict (todo.erase key)))
  | swept (c k) (hk : s.calls[c]? = some k) (hpc : k.pc = .evict []) :
      Transition cfg s (.go c) (s.goto c k .invoke)
  | invoke (c k) (hk : s.calls[c]? = some k) (hpc : k.pc = .invoke) :
      Transition cfg s (.go c) (s.goto c k .resolving)
  | answered (c k addresses) (hk : s.calls[c]? = some k) (hpc : k.pc = .resolving) :
      Transition cfg s (.answer c (some addresses)) (s.goto c k (.put addresses))
  | threw (c k) (hk : s.calls[c]? = some k) (hpc : k.pc = .resolving) :
      Transition cfg s (.answer c none) (s.goto c k (.remove none))
  | put (c k addresses) (hk : s.calls[c]? = some k) (hpc : k.pc = .put addresses) :
      Transition cfg s (.go c)
        (goto { s with cache := s.cache.insert k.key (entryOf cfg c k.nowMs addresses) } c k
          (.remove (some addresses)))
  | removed (c k result) (hk : s.calls[c]? = some k) (hpc : k.pc = .remove result) :
      Transition cfg s (.go c)
        (goto { s with inFlight := s.inFlight.erase k.key } c k (.countDown result))
  | kept (c k result) (hk : s.calls[c]? = some k) (hpc : k.pc = .remove result) :
      Transition cfg s (.go c) (s.goto c k (.countDown result))
  | countDown (c k addresses) (hk : s.calls[c]? = some k) (hpc : k.pc = .countDown (some addresses)) :
      Transition cfg s (.go c) (s.goto c { k with latch := true } (.returned addresses (some c)))
  | thrown (c k) (hk : s.calls[c]? = some k) (hpc : k.pc = .countDown none) :
      Transition cfg s (.go c) (s.goto c { k with latch := true } .thrown)
  | clear : Transition cfg s .clear { s with clears := s.clears ++ [.cache s.cache.keys] }
  | sweepCache (d key todo) (hd : s.clears[d]? = some (.cache todo)) :
      Transition cfg s (.sweepClear d key)
        { s with cache := s.cache.erase key, clears := s.clears.set d (.cache (todo.erase key)) }
  | sweepInFlight (d key todo) (hd : s.clears[d]? = some (.inFlight todo)) :
      Transition cfg s (.sweepClear d key)
        { s with
          inFlight := s.inFlight.erase key
          clears := s.clears.set d (.inFlight (todo.erase key)) }
  | toInFlight (d) (hd : s.clears[d]? = some (.cache [])) :
      Transition cfg s (.goClear d) { s with clears := s.clears.set d (.inFlight s.inFlight.keys) }
  | cleared (d) (hd : s.clears[d]? = some (.inFlight [])) :
      Transition cfg s (.goClear d) { s with clears := s.clears.set d .returned }

variable {cfg : LookupConfig} {t : DnsLookups K A}

theorem goStep_transition {c : ℕ} {k : LookupCall K A} (hk : s.calls[c]? = some k)
    (h : s.goStep cfg c k = some t) : Transition cfg s (.go c) t := by
  unfold goStep at h
  split at h
  case h_1 hpc =>
    split at h
    case h_1 e he =>
      cases h
      exact .hit c k e hk hpc he
    case h_2 =>
      cases h
      exact .miss c k hk hpc
  case h_2 hpc =>
    split at h
    case h_1 leader hin =>
      cases h
      exact .follow c k leader hk hpc hin
    case h_2 =>
      cases h
      exact .lead c k hk hpc
  case h_3 leader inTime hpc =>
    split at h
    case h_1 e he =>
      cases h
      exact .rehit c k leader inTime e hk hpc he
    case h_2 he =>
      cases h
      exact .remiss c k leader inTime hk hpc he
  case h_4 hpc =>
    cases h
    exact .swept c k hk hpc
  case h_5 hpc =>
    cases h
    exact .invoke c k hk hpc
  case h_6 addresses hpc =>
    cases h
    exact .put c k addresses hk hpc
  case h_7 result hpc =>
    split at h
    case isTrue =>
      cases h
      exact .removed c k result hk hpc
    case isFalse =>
      cases h
      exact .kept c k result hk hpc
  case h_8 addresses hpc =>
    cases h
    exact .countDown c k addresses hk hpc
  case h_9 hpc =>
    cases h
    exact .thrown c k hk hpc
  all_goals cases h

theorem transition_of_step {e : LookupEvent K A} (h : s.step cfg e = some t) :
    Transition cfg s e t := by
  cases e with
  | call key nowMs =>
      cases h
      exact .call key nowMs
  | go c =>
      obtain ⟨k, hk, h⟩ := Option.bind_eq_some_iff.mp h
      exact goStep_transition hk h
  | wake c inTime =>
      obtain ⟨k, hk, h⟩ := Option.bind_eq_some_iff.mp h
      split at h
      case h_1 leader hpc =>
        split at h
        case isTrue => cases h
        case isFalse hlatch =>
          cases h
          refine .wake c k leader inTime hk hpc fun hin => ?_
          rw [← Bool.not_eq_false]
          exact fun hup => hlatch ⟨hin, hup⟩
      case h_2 => cases h
  | size c n =>
      obtain ⟨k, hk, h⟩ := Option.bind_eq_some_iff.mp h
      split at h
      case h_1 hpc =>
        split at h
        case isTrue =>
          cases h
          exact .full c n k hk hpc
        case isFalse =>
          cases h
          exact .room c n k hk hpc
      case h_2 => cases h
  | sweep c key =>
      obtain ⟨k, hk, h⟩ := Option.bind_eq_some_iff.mp h
      split at h
      case h_1 todo hpc =>
        cases h
        exact .sweep c key k todo hk hpc
      case h_2 => cases h
  | answer c result =>
      obtain ⟨k, hk, h⟩ := Option.bind_eq_some_iff.mp h
      split at h
      case h_1 hpc =>
        cases result with
        | some addresses =>
            cases h
            exact .answered c k addresses hk hpc
        | none =>
            cases h
            exact .threw c k hk hpc
      case h_2 => cases h
  | clear =>
      cases h
      exact .clear
  | sweepClear d key =>
      obtain ⟨pc, hd, h⟩ := Option.bind_eq_some_iff.mp h
      split at h
      case h_1 todo =>
        cases h
        exact .sweepCache d key todo hd
      case h_2 todo =>
        cases h
        exact .sweepInFlight d key todo hd
      case h_3 => cases h
  | goClear d =>
      obtain ⟨pc, hd, h⟩ := Option.bind_eq_some_iff.mp h
      split at h
      case h_1 =>
        cases h
        exact .toInFlight d hd
      case h_2 =>
        cases h
        exact .cleared d hd
      all_goals cases h

end DnsLookups

end FiveGProxy
