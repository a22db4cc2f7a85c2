import FiveGProxy.Library.Steps
import FiveGProxy.Library.Tally
import FiveGProxy.Slots.Identifier
import Mathlib.Data.List.Perm.Basic
import Mathlib.Logic.Function.Basic

/-!
# The allocator of slots

`slot_acquire` takes an index off the stack of free slots and counts the generation of the slot up,
under `g_slot_lock`; the slot is cleared, and its generation put back, behind the lock.
`conn_finalize` lets one call through (`finalized`), and `slot_release` puts the index back.
`udp_slot_acquire` and its fellows do the same on their own table; what else they store is not read
here.

Each step is the section under the lock or one statement outside of it, and any number of tenancies
are under way. A tenancy is known by its place in `tenancies`. `slots_init` runs at a restart, when
all threads of the last cycle have ended: a tenancy that none of them has released has no owner any
more.
-/

namespace FiveGProxy

open Steps

/-- The fields of the slots, the stack and its height. -/
structure SlotTable where
  gen : ℕ → BitVec 32
  /-- `conn->slot` -/
  slot : ℕ → ℕ
  finalized : ℕ → Bool
  slotState : ℕ → Bool
  freeSlots : ℕ → ℕ
  freeSlotTop : ℕ

/-- The next statement of a tenancy. -/
inductive TenancyPc
  | memset
  | storeGen
  | storeSlot
  | storeState
  /-- `slot_acquire` has returned and `conn_finalize` was not let through. -/
  | owned
  /-- `int slot = conn->slot` -/
  | readSlot
  | clearState (idx : ℕ)
  /-- The section of `slot_release`. -/
  | push (idx : ℕ)
  | ended
  deriving DecidableEq

structure SlotTenancy where
  slot : ℕ
  /-- `new_gen` -/
  gen : BitVec 32
  pc : TenancyPc
  deriving DecidableEq

structure SlotRun where
  table : SlotTable
  tenancies : List SlotTenancy

inductive SlotEvent
  /-- The section of `slot_acquire`. -/
  | acquire
  /-- The next statement of a tenancy. -/
  | next (k : ℕ)
  /-- A thread calls `conn_finalize` while the tenancy lasts. -/
  | finalize (k : ℕ)
  | restart

namespace SlotTable

/-- `slots_init` -/
def init (n : ℕ) (t : SlotTable) : SlotTable :=
  { t with
    gen := fun i => if i < n ∧ t.gen i = 0 then 1 else t.gen i
    slotState := fun i => if i < n then false else t.slotState i
    freeSlots := fun i => if i < n then i else t.freeSlots i
    freeSlotTop := n }

def zero : SlotTable where
  gen _ := 0
  slot _ := 0
  finalized _ := false
  slotState _ := false
  freeSlots _ := 0
  freeSlotTop := 0

def free (t : SlotTable) : List ℕ := (List.range t.freeSlotTop).map t.freeSlots

end SlotTable

def SlotTenancy.next (t : SlotTable) (c : SlotTenancy) : Option (SlotTable × TenancyPc) :=
  match c.pc with
  | .memset =>
      some ({ t with
        gen := Function.update t.gen c.slot 0
        slot := Function.update t.slot c.slot 0
        finalized := Function.update t.finalized c.slot false }, .storeGen)
  | .storeGen => some ({ t with gen := Function.update t.gen c.slot c.gen }, .storeSlot)
  | .storeSlot => some ({ t with slot := Function.update t.slot c.slot c.slot }, .storeState)
  | .storeState => some ({ t with slotState := Function.update t.slotState c.slot true }, .owned)
  | .readSlot => some (t, .clearState (t.slot c.slot))
  | .clearState idx => some ({ t with slotState := Function.update t.slotState idx false }, .push idx)
  | .push idx =>
      some ({ t with
        freeSlots := Function.update t.freeSlots t.freeSlotTop idx
        freeSlotTop := t.freeSlotTop + 1 }, .ended)
  | .owned | .ended => none

namespace TenancyPc

/-- `conn_finalize` was let through, and the slot is not yet back on the stack. -/
def releasing : TenancyPc → Bool
  | readSlot | clearState _ | push _ => true
  | _ => false

/-- The index is on its way through `slot_release`. -/
def inTransit : TenancyPc → Bool
  | clearState _ | push _ => true
  | _ => false

def owns (pc : TenancyPc) : Bool := pc ≠ ended && !pc.inTransit

/-- No thread is inside `slot_acquire` or `conn_finalize`. -/
def resting (pc : TenancyPc) : Bool := pc = owned || pc = ended

end TenancyPc

namespace SlotRun

variable (n : ℕ)

def init : SlotRun := ⟨SlotTable.zero.init n, []⟩

def step (s : SlotRun) : SlotEvent → Option SlotRun
  | .acquire =>
      -- at `0` the call returns `-1`
      if s.table.freeSlotTop = 0 then some s
      else
        let idx := s.table.freeSlots (s.table.freeSlotTop - 1)
        let newGen := s.table.gen idx + 1
        some {
          table := { s.table with
            freeSlotTop := s.table.freeSlotTop - 1
            gen := Function.update s.table.gen idx newGen }
          tenancies := s.tenancies ++ [⟨idx, newGen, .memset⟩] }
  | .next k =>
      match s.tenancies[k]? with
      | none => none
      | some c => (c.next s.table).map fun (t, pc) => ⟨t, s.tenancies.set k { c with pc := pc }⟩
  | .finalize k =>
      match s.tenancies[k]? with
      | none => none
      | some c =>
          if c.pc = .owned ∨ c.pc.releasing = true then
            if s.table.finalized c.slot = true then some s
            else some {
              table := { s.table with finalized := Function.update s.table.finalized c.slot true }
              tenancies := s.tenancies.set k { c with pc := .readSlot } }
          else none
  | .restart =>
      if s.tenancies.all (·.pc.resting) then
        some ⟨s.table.init n, s.tenancies.map fun c => { c with pc := .ended }⟩
      else none

def owned (s : SlotRun) : List ℕ := (s.tenancies.filter (·.pc.owns)).map (·.slot)

def inTransit (s : SlotRun) : List ℕ := (s.tenancies.filter (·.pc.inTransit)).map (·.slot)

def acquisitions (s : SlotRun) (i : ℕ) : ℕ := s.tenancies.countP (·.slot = i)

end SlotRun

/-! ### Counting -/

def SlotTenancy.holds (i : ℕ) (c : SlotTenancy) : ℕ := if c.pc ≠ .ended ∧ c.slot = i then 1 else 0

theorem SlotTenancy.holds_eq_one {i : ℕ} {c : SlotTenancy} :
    c.holds i = 1 ↔ c.pc ≠ .ended ∧ c.slot = i := by
  unfold holds
  split
  case isTrue h => simp [h]
  case isFalse h => simp [h]

theorem SlotTenancy.holds_congr {c : SlotTenancy} {pc : TenancyPc} (hc : c.pc ≠ .ended)
    (hpc : pc ≠ .ended) (i : ℕ) : holds i { c with pc := pc } = c.holds i := by
  simp [holds, hc, hpc]

def SlotTenancy.key (c : SlotTenancy) : ℕ × BitVec 32 := (c.slot, c.gen)

namespace SlotRun

variable {n : ℕ} {s t : SlotRun} {k : ℕ} {c : SlotTenancy}

theorem count_owned_add_count_inTransit (s : SlotRun) (i : ℕ) :
    s.owned.count i + s.inTransit.count i = Tally.total (SlotTenancy.holds i) s.tenancies := by
  unfold owned inTransit
  induction s.tenancies with
  | nil => rfl
  | cons c rest ih =>
      have hcons : Tally.total (SlotTenancy.holds i) (c :: rest) =
          c.holds i + Tally.total (SlotTenancy.holds i) rest := rfl
      rw [hcons, ← ih]
      obtain ⟨slot, gen, pc⟩ := c
      by_cases hi : slot = i <;> cases pc <;>
        simp [TenancyPc.owns, TenancyPc.inTransit, SlotTenancy.holds, hi] <;> omega

theorem eq_of_holds {l : List SlotTenancy} {i k k' : ℕ} {c c' : SlotTenancy}
    (hle : Tally.total (SlotTenancy.holds i) l ≤ 1) (hk : l[k]? = some c) (hk' : l[k']? = some c')
    (hc : c.holds i = 1) (hc' : c'.holds i = 1) : k = k' := by
  by_contra hne
  have hended : ∀ d : SlotTenancy, SlotTenancy.holds i { d with pc := .ended } = 0 :=
    fun d => if_neg (by simp)
  have hset := Tally.total_set (SlotTenancy.holds i) hk { c with pc := .ended }
  have hset' := Tally.total_set (SlotTenancy.holds i)
    (show (l.set k { c with pc := .ended })[k']? = some c' by rw [List.getElem?_set_ne hne, hk'])
    { c' with pc := .ended }
  rw [hended] at hset hset'
  omega

theorem free_pop {t : SlotTable} (h : t.freeSlotTop ≠ 0) :
    t.free = SlotTable.free { t with freeSlotTop := t.freeSlotTop - 1 } ++
      [t.freeSlots (t.freeSlotTop - 1)] := by
  obtain ⟨m, hm⟩ := Nat.exists_eq_succ_of_ne_zero h
  simp [SlotTable.free, hm, List.range_succ]

theorem free_push (t : SlotTable) (idx : ℕ) : SlotTable.free { t with
    freeSlots := Function.update t.freeSlots t.freeSlotTop idx
    freeSlotTop := t.freeSlotTop + 1 } = t.free ++ [idx] := by
  simp only [SlotTable.free, List.range_succ, List.map_append, List.map_cons, List.map_nil,
    Function.update_self]
  congr 1
  refine List.map_congr_left fun i hi => Function.update_of_ne ?_ ..
  exact (List.mem_range.mp hi).ne

/-! ### What a tenancy keeps -/

theorem map_set_key {l : List SlotTenancy} (hk : l[k]? = some c) {d : SlotTenancy}
    (hd : d.key = c.key) : (l.set k d).map SlotTenancy.key = l.map SlotTenancy.key := by
  refine List.ext_getElem? fun j => ?_
  rw [List.getElem?_map, List.getElem?_map, List.getElem?_set]
  split
  case isTrue hj =>
    subst hj
    rw [if_pos (List.getElem?_eq_some_iff.mp hk).1, hk]
    exact congrArg some hd
  case isFalse => rfl

theorem acquisitions_congr (h : t.tenancies.map SlotTenancy.key = s.tenancies.map SlotTenancy.key)
    (i : ℕ) : t.acquisitions i = s.acquisitions i := by
  have hcount : ∀ u : SlotRun, u.acquisitions i =
      (u.tenancies.map SlotTenancy.key).countP (·.1 = i) := fun u => by
    rw [List.countP_map]
    rfl
  rw [hcount, hcount, h]

theorem distinct_congr {l l' : List SlotTenancy} (h : l'.map SlotTenancy.key = l.map SlotTenancy.key)
    {P : ℕ → Prop} (hd : l.Pairwise fun c d => c.slot = d.slot → P c.slot → c.gen ≠ d.gen) :
    l'.Pairwise fun c d => c.slot = d.slot → P c.slot → c.gen ≠ d.gen := by
  have hmap : ∀ l : List SlotTenancy, (l.Pairwise fun c d => c.slot = d.slot → P c.slot →
      c.gen ≠ d.gen) ↔ (l.map SlotTenancy.key).Pairwise fun c d => c.1 = d.1 → P c.1 → c.2 ≠ d.2 :=
    fun l => by
      rw [List.pairwise_map]
      rfl
  rw [hmap] at hd ⊢
  rw [h]
  exact hd

/-! ### The invariant -/

def genAfter (m : ℕ) : BitVec 32 := BitVec.ofNat 32 (m + 1)

theorem genAfter_succ (m : ℕ) : genAfter m + 1 = genAfter (m + 1) := by
  simp [genAfter, BitVec.ofNat_add]

theorem genAfter_injOn {a b : ℕ} (hab : a < b) (hb : b < 2 ^ 32) (ha : 0 < a) :
    genAfter a ≠ genAfter b := by
  intro heq
  have hval := congrArg BitVec.toNat heq
  simp only [genAfter, BitVec.toNat_ofNat] at hval
  omega

/-- What holds after every step. -/
structure Inv (n : ℕ) (s : SlotRun) : Prop where
  /-- Each index is on the stack or with one tenancy. -/
  partition : ∀ i, s.table.free.count i + Tally.total (SlotTenancy.holds i) s.tenancies =
    if i < n then 1 else 0
  /-- `conn->slot` is the index of the slot when it is read. -/
  slot_eq : ∀ (k : ℕ) (c : SlotTenancy), s.tenancies[k]? = some c →
    c.pc = .storeState ∨ c.pc = .owned ∨ c.pc = .readSlot → s.table.slot c.slot = c.slot
  idx_eq : ∀ (k : ℕ) (c : SlotTenancy), s.tenancies[k]? = some c → ∀ idx,
    c.pc = .clearState idx ∨ c.pc = .push idx → idx = c.slot
  /-- No second call gets through. -/
  guarded : ∀ (k : ℕ) (c : SlotTenancy), s.tenancies[k]? = some c → c.pc.releasing = true →
    s.table.finalized c.slot = true
  memory : ∀ i < n, s.acquisitions i + 1 < 2 ^ 32 →
    (∀ (k : ℕ) (c : SlotTenancy), s.tenancies[k]? = some c → c.slot = i → c.pc ≠ .storeGen) →
      s.table.gen i = genAfter (s.acquisitions i)
  /-- The generation survives the `memset`. -/
  kept : ∀ (k : ℕ) (c : SlotTenancy), s.tenancies[k]? = some c → c.pc ≠ .ended →
    c.pc ≠ .storeGen → s.table.gen c.slot = c.gen
  latest : ∀ (k : ℕ) (c : SlotTenancy), s.tenancies[k]? = some c → c.pc ≠ .ended →
    s.acquisitions c.slot < 2 ^ 32 → c.gen = genAfter (s.acquisitions c.slot)
  issued : ∀ (k : ℕ) (c : SlotTenancy), s.tenancies[k]? = some c →
    s.acquisitions c.slot < 2 ^ 32 →
      ∃ r, 0 < r ∧ r ≤ s.acquisitions c.slot ∧ c.gen = genAfter r
  distinct : s.tenancies.Pairwise fun c d => c.slot = d.slot → s.acquisitions c.slot < 2 ^ 32 →
    c.gen ≠ d.gen

namespace Inv

theorem le_one (h : Inv n s) (i : ℕ) : Tally.total (SlotTenancy.holds i) s.tenancies ≤ 1 := by
  have hi := h.partition i
  split at hi <;> omega

theorem unique (h : Inv n s) {k' : ℕ} {c' : SlotTenancy} (hk : s.tenancies[k]? = some c)
    (hk' : s.tenancies[k']? = some c') (hc : c.pc ≠ .ended) (hc' : c'.pc ≠ .ended)
    (hslot : c.slot = c'.slot) : k = k' :=
  eq_of_holds (h.le_one c'.slot) hk hk' (SlotTenancy.holds_eq_one.mpr ⟨hc, hslot⟩)
    (SlotTenancy.holds_eq_one.mpr ⟨hc', rfl⟩)

theorem init (n : ℕ) : Inv n (SlotRun.init n) where
  partition i := by
    have hfree : (SlotRun.init n).table.free = List.range n := by
      refine (List.map_congr_left fun i hi => ?_).trans (List.map_id _)
      exact if_pos (List.mem_range.mp hi)
    rw [hfree, List.nodup_range.count]
    simp [SlotRun.init, Tally.total]
  slot_eq := by rintro _ _ ⟨⟩
  idx_eq := by rintro _ _ ⟨⟩
  guarded := by rintro _ _ ⟨⟩
  memory i hi _ _ := if_pos ⟨hi, rfl⟩
  kept := by rintro _ _ ⟨⟩
  latest := by rintro _ _ ⟨⟩
  issued := by rintro _ _ ⟨⟩
  distinct := .nil

/-- A tenancy makes a step; only the fields of its slot and the stack change. -/
theorem move (h : Inv n s) (hk : s.tenancies[k]? = some c) (hc : c.pc ≠ .ended) {t : SlotTable}
    {pc : TenancyPc} (hother : ∀ j ≠ c.slot, t.gen j = s.table.gen j ∧ t.slot j = s.table.slot j ∧
      t.finalized j = s.table.finalized j)
    (hpartition : ∀ i, t.free.count i + SlotTenancy.holds i { c with pc := pc } =
      s.table.free.count i + c.holds i)
    (hslot : pc = .storeState ∨ pc = .owned ∨ pc = .readSlot → t.slot c.slot = c.slot)
    (hidx : ∀ idx, pc = .clearState idx ∨ pc = .push idx → idx = c.slot)
    (hguarded : pc.releasing = true → t.finalized c.slot = true)
    (hgen : t.gen c.slot = s.table.gen c.slot ∧ c.pc ≠ .storeGen ∨ t.gen c.slot = c.gen ∨
      pc = .storeGen) : Inv n ⟨t, s.tenancies.set k { c with pc := pc }⟩ := by
  have hkey : (s.tenancies.set k { c with pc := pc }).map SlotTenancy.key =
      s.tenancies.map SlotTenancy.key := map_set_key hk rfl
  have hacq : ∀ i, SlotRun.acquisitions ⟨t, s.tenancies.set k { c with pc := pc }⟩ i =
      s.acquisitions i := acquisitions_congr hkey
  have hcases : ∀ (k' : ℕ) (d : SlotTenancy), (s.tenancies.set k { c with pc := pc })[k']? = some d →
      k' = k ∧ d = { c with pc := pc } ∨ s.tenancies[k']? = some d ∧
        (d.pc ≠ .ended → d.slot ≠ c.slot) := by
    intro k' d hd
    by_cases hkk : k' = k
    · subst hkk
      rw [List.getElem?_set_self (List.getElem?_eq_some_iff.mp hk).1] at hd
      exact Or.inl ⟨rfl, (Option.some.inj hd).symm⟩
    · rw [List.getElem?_set_ne (Ne.symm hkk)] at hd
      exact Or.inr ⟨hd, fun hlive heq => hkk (h.unique hd hk hlive hc heq)⟩
  have hnew : (s.tenancies.set k { c with pc := pc })[k]? = some { c with pc := pc } :=
    List.getElem?_set_self (List.getElem?_eq_some_iff.mp hk).1
  refine ⟨fun i => ?_, fun k' d hd hpc => ?_, fun k' d hd idx hpc => ?_, fun k' d hd hpc => ?_,
    fun i hi hlt hstore => ?_, fun k' d hd hlive hstore => ?_, fun k' d hd hlive hlt => ?_,
    fun k' d hd hlt => ?_, ?_⟩
  · have hset := Tally.total_set (SlotTenancy.holds i) hk { c with pc := pc }
    have hi := h.partition i
    have hi' := hpartition i
    show t.free.count i + Tally.total (SlotTenancy.holds i) (s.tenancies.set k _) = _
    omega
  · rcases hcases k' d hd with ⟨-, rfl⟩ | ⟨hold, hne⟩
    · exact hslot hpc
    · have hlive : d.pc ≠ .ended := by rcases hpc with hpc | hpc | hpc <;> simp [hpc]
      exact ((hother d.slot (hne hlive)).2.1).trans (h.slot_eq k' d hold hpc)
  · rcases hcases k' d hd with ⟨-, rfl⟩ | ⟨hold, -⟩
    · exact hidx idx hpc
    · exact h.idx_eq k' d hold idx hpc
  · rcases hcases k' d hd with ⟨-, rfl⟩ | ⟨hold, hne⟩
    · exact hguarded hpc
    · have hlive : d.pc ≠ .ended := by
        intro hended
        rw [hended] at hpc
        cases hpc
      exact ((hother d.slot (hne hlive)).2.2).trans (h.guarded k' d hold hpc)
  · rw [hacq] at hlt ⊢
    by_cases hci : c.slot = i
    · subst hci
      rcases hgen with ⟨heq, hnot⟩ | heq | hstoring
      · refine heq.trans (h.memory c.slot hi hlt fun k' d hd hslotd hpcd => ?_)
        have hkk := h.unique hd hk (by simp [hpcd]) hc hslotd
        subst hkk
        cases hd.symm.trans hk
        exact hnot hpcd
      · exact heq.trans (h.latest k c hk hc (Nat.lt_of_succ_lt hlt))
      · exact absurd hstoring (hstore k _ hnew rfl)
    · refine ((hother i (Ne.symm hci)).1).trans (h.memory i hi hlt fun k' d hd hslotd => ?_)
      by_cases hkk : k' = k
      · subst hkk
        cases hd.symm.trans hk
        exact absurd hslotd hci
      · exact hstore k' d ((List.getElem?_set_ne (Ne.symm hkk)).trans hd) hslotd
  · rcases hcases k' d hd with ⟨-, rfl⟩ | ⟨hold, hne⟩
    · rcases hgen with ⟨heq, hnot⟩ | heq | hstoring
      · exact heq.trans (h.kept k c hk hc hnot)
      · exact heq
      · exact absurd hstoring hstore
    · exact ((hother d.slot (hne hlive)).1).trans (h.kept k' d hold hlive hstore)
  · rw [hacq] at hlt ⊢
    rcases hcases k' d hd with ⟨-, rfl⟩ | ⟨hold, -⟩
    · exact h.latest k c hk hc hlt
    · exact h.latest k' d hold hlive hlt
  · rw [hacq] at hlt ⊢
    rcases hcases k' d hd with ⟨-, rfl⟩ | ⟨hold, -⟩
    · exact h.issued k c hk hlt
    · exact h.issued k' d hold hlt
  · refine distinct_congr (P := fun i => SlotRun.acquisitions
      ⟨t, s.tenancies.set k { c with pc := pc }⟩ i < 2 ^ 32) hkey ?_
    simpa only [hacq] using h.distinct

theorem next (h : Inv n s) (hk : s.tenancies[k]? = some c) {t : SlotTable} {pc : TenancyPc}
    (hnext : c.next s.table = some (t, pc)) : Inv n ⟨t, s.tenancies.set k { c with pc := pc }⟩ := by
  have hkeeps : ∀ {pc : TenancyPc}, c.pc ≠ .ended → pc ≠ .ended → ∀ i, s.table.free.count i +
      SlotTenancy.holds i { c with pc := pc } = s.table.free.count i + c.holds i :=
    fun hc hpc i => congrArg _ (SlotTenancy.holds_congr hc hpc i)
  unfold SlotTenancy.next at hnext
  cases hc : c.pc with
  | memset =>
      rw [hc] at hnext
      cases hnext
      refine h.move hk (by simp [hc]) (fun j hj => ?_) (hkeeps (by simp [hc]) (by simp)) (by simp)
        (by simp) (by simp [TenancyPc.releasing]) (Or.inr (Or.inr rfl))
      exact ⟨Function.update_of_ne hj .., Function.update_of_ne hj .., Function.update_of_ne hj ..⟩
  | storeGen =>
      rw [hc] at hnext
      cases hnext
      refine h.move hk (by simp [hc]) (fun j hj => ⟨Function.update_of_ne hj .., rfl, rfl⟩)
        (hkeeps (by simp [hc]) (by simp)) (by simp) (by simp) (by simp [TenancyPc.releasing])
        (Or.inr (Or.inl (Function.update_self ..)))
  | storeSlot =>
      rw [hc] at hnext
      cases hnext
      exact h.move hk (by simp [hc]) (fun j hj => ⟨rfl, Function.update_of_ne hj .., rfl⟩)
        (hkeeps (by simp [hc]) (by simp)) (fun _ => Function.update_self ..) (by simp)
        (by simp [TenancyPc.releasing]) (Or.inl ⟨rfl, by simp [hc]⟩)
  | storeState =>
      rw [hc] at hnext
      cases hnext
      exact h.move hk (by simp [hc]) (fun j hj => ⟨rfl, rfl, rfl⟩)
        (hkeeps (by simp [hc]) (by simp)) (fun _ => h.slot_eq k c hk (Or.inl hc)) (by simp)
        (by simp [TenancyPc.releasing]) (Or.inl ⟨rfl, by simp [hc]⟩)
  | owned | ended =>
      rw [hc] at hnext
      cases hnext
  | readSlot =>
      rw [hc] at hnext
      cases hnext
      refine h.move hk (by simp [hc]) (fun j hj => ⟨rfl, rfl, rfl⟩)
        (hkeeps (by simp [hc]) (by simp)) (by simp) (fun idx hidx => ?_)
        (fun _ => h.guarded k c hk (by simp [hc, TenancyPc.releasing])) (Or.inl ⟨rfl, by simp [hc]⟩)
      rw [← h.slot_eq k c hk (Or.inr (Or.inr hc))]
      rcases hidx with hidx | hidx <;> cases hidx
      rfl
  | clearState idx =>
      rw [hc] at hnext
      cases hnext
      refine h.move hk (by simp [hc]) (fun j hj => ⟨rfl, rfl, rfl⟩)
        (hkeeps (by simp [hc]) (by simp)) (by simp) (fun idx' hidx => ?_)
        (fun _ => h.guarded k c hk (by simp [hc, TenancyPc.releasing])) (Or.inl ⟨rfl, by simp [hc]⟩)
      rcases hidx with hidx | hidx <;> cases hidx
      exact h.idx_eq k c hk idx (Or.inl hc)
  | push idx =>
      rw [hc] at hnext
      cases hnext
      obtain rfl := h.idx_eq k c hk idx (Or.inr hc)
      refine h.move hk (by simp [hc]) (fun j hj => ⟨rfl, rfl, rfl⟩) (fun i => ?_) (by simp) (by simp)
        (by simp [TenancyPc.releasing]) (Or.inl ⟨rfl, by simp [hc]⟩)
      rw [free_push, List.count_append, List.count_singleton]
      by_cases hi : c.slot = i <;> simp [SlotTenancy.holds, hc, hi]

theorem finalize (h : Inv n s) (hk : s.tenancies[k]? = some c) (hc : c.pc = .owned) :
    Inv n {
      table := { s.table with finalized := Function.update s.table.finalized c.slot true }
      tenancies := s.tenancies.set k { c with pc := .readSlot } } := by
  have hlive : c.pc ≠ .ended := by simp [hc]
  exact h.move hk hlive (fun j hj => ⟨rfl, rfl, Function.update_of_ne hj ..⟩)
    (fun i => congrArg _ (SlotTenancy.holds_congr hlive (by simp) i))
    (fun _ => h.slot_eq k c hk (Or.inr (Or.inl hc))) (by simp) (fun _ => Function.update_self ..)
    (Or.inl ⟨rfl, by simp [hc]⟩)

theorem acquire (h : Inv n s) (htop : s.table.freeSlotTop ≠ 0) {idx : ℕ}
    (hidx : idx = s.table.freeSlots (s.table.freeSlotTop - 1)) {newGen : BitVec 32}
    (hgen : newGen = s.table.gen idx + 1) : Inv n {
      table := { s.table with
        freeSlotTop := s.table.freeSlotTop - 1
        gen := Function.update s.table.gen idx newGen }
      tenancies := s.tenancies ++ [⟨idx, newGen, .memset⟩] } := by
  have hpop := free_pop htop
  rw [← hidx] at hpop
  have hcount : ∀ i, s.table.free.count i =
      (SlotTable.free { s.table with freeSlotTop := s.table.freeSlotTop - 1 }).count i +
        if idx = i then 1 else 0 := fun i => by
    rw [hpop, List.count_append, List.count_singleton]
    simp
  have hnone : Tally.total (SlotTenancy.holds idx) s.tenancies = 0 ∧ idx < n := by
    have hpart := h.partition idx
    rw [hcount idx, if_pos rfl] at hpart
    split at hpart
    case isTrue hlt => exact ⟨by omega, hlt⟩
    case isFalse => omega
  have hended : ∀ (k : ℕ) (d : SlotTenancy), s.tenancies[k]? = some d → d.slot = idx →
      d.pc = .ended := by
    intro k d hd hslot
    by_contra hlive
    have hset := Tally.total_set (SlotTenancy.holds idx) hd { d with pc := .ended }
    have hzero : SlotTenancy.holds idx { d with pc := .ended } = 0 := if_neg (by simp)
    rw [SlotTenancy.holds_eq_one.mpr ⟨hlive, hslot⟩, hzero] at hset
    omega
  have hacq : ∀ i, SlotRun.acquisitions ⟨{ s.table with
      freeSlotTop := s.table.freeSlotTop - 1
      gen := Function.update s.table.gen idx newGen }, s.tenancies ++ [⟨idx, newGen, .memset⟩]⟩ i =
        s.acquisitions i + if idx = i then 1 else 0 := fun i => by
    simp only [acquisitions, List.countP_append, List.countP_singleton]
    simp
  have hnew : s.acquisitions idx + 1 < 2 ^ 32 → newGen = genAfter (s.acquisitions idx + 1) := by
    intro hlt
    rw [hgen, h.memory idx hnone.2 hlt fun k d hd hslot => by simp [hended k d hd hslot],
      genAfter_succ]
  have hcases : ∀ (k : ℕ) (d : SlotTenancy),
      (s.tenancies ++ [⟨idx, newGen, .memset⟩])[k]? = some d →
        s.tenancies[k]? = some d ∨ d = ⟨idx, newGen, .memset⟩ := by
    intro k d hd
    rw [List.getElem?_append] at hd
    split at hd
    case isTrue => exact Or.inl hd
    case isFalse =>
      rw [List.getElem?_singleton] at hd
      split at hd
      case isTrue => exact Or.inr (Option.some.inj hd).symm
      case isFalse => cases hd
  refine ⟨fun i => ?_, fun k d hd hpc => ?_, fun k d hd j hpc => ?_, fun k d hd hpc => ?_,
    fun i hi hlt hstore => ?_, fun k d hd hlive hstore => ?_, fun k d hd hlive hlt => ?_,
    fun k d hd hlt => ?_, ?_⟩
  · have hpart := h.partition i
    have htotal : Tally.total (SlotTenancy.holds i) (s.tenancies ++ [⟨idx, newGen, .memset⟩]) =
        Tally.total (SlotTenancy.holds i) s.tenancies + if idx = i then 1 else 0 := by
      simp [Tally.total, SlotTenancy.holds]
    rw [hcount i] at hpart
    show (SlotTable.free { s.table with freeSlotTop := s.table.freeSlotTop - 1 }).count i +
      Tally.total (SlotTenancy.holds i) (s.tenancies ++ [⟨idx, newGen, .memset⟩]) = _
    rw [htotal]
    omega
  · rcases hcases k d hd with hold | rfl
    · exact h.slot_eq k d hold hpc
    · rcases hpc with hpc | hpc | hpc <;> cases hpc
  · rcases hcases k d hd with hold | rfl
    · exact h.idx_eq k d hold j hpc
    · rcases hpc with hpc | hpc <;> cases hpc
  · rcases hcases k d hd with hold | rfl
    · exact h.guarded k d hold hpc
    · cases hpc
  · rw [hacq] at hlt ⊢
    by_cases hi' : idx = i
    · subst hi'
      rw [if_pos rfl] at hlt ⊢
      exact (Function.update_self ..).trans (hnew (Nat.lt_of_succ_lt hlt))
    · rw [if_neg hi', Nat.add_zero] at hlt ⊢
      refine (Function.update_of_ne (Ne.symm hi') ..).trans (h.memory i hi hlt fun k d hd => ?_)
      exact hstore k d (List.getElem?_append_left (List.getElem?_eq_some_iff.mp hd).1 ▸ hd)
  · rcases hcases k d hd with hold | rfl
    · have hne : d.slot ≠ idx := fun heq => hlive (hended k d hold heq)
      exact (Function.update_of_ne hne ..).trans (h.kept k d hold hlive hstore)
    · exact Function.update_self ..
  · rw [hacq] at hlt ⊢
    rcases hcases k d hd with hold | rfl
    · have hne : idx ≠ d.slot := fun heq => hlive (hended k d hold heq.symm)
      rw [if_neg hne, Nat.add_zero] at hlt ⊢
      exact h.latest k d hold hlive hlt
    · rw [if_pos rfl] at hlt ⊢
      exact hnew hlt
  · rw [hacq] at hlt ⊢
    rcases hcases k d hd with hold | rfl
    · obtain ⟨r, hpos, hle, hr⟩ := h.issued k d hold ((Nat.le_add_right ..).trans_lt hlt)
      exact ⟨r, hpos, hle.trans (Nat.le_add_right ..), hr⟩
    · rw [if_pos rfl] at hlt ⊢
      exact ⟨_, Nat.succ_pos _, le_rfl, hnew hlt⟩
  · refine List.pairwise_append.mpr ⟨?_, List.pairwise_singleton .., fun d hd d' hd' hslot hlt => ?_⟩
    · refine h.distinct.imp fun hdist hslot hlt => hdist hslot ?_
      rw [hacq] at hlt
      exact (Nat.le_add_right ..).trans_lt hlt
    · rw [List.mem_singleton.mp hd'] at hslot ⊢
      rw [hacq, if_pos hslot.symm, hslot] at hlt
      obtain ⟨k, hk⟩ := List.mem_iff_getElem?.mp hd
      obtain ⟨r, hpos, hle, hr⟩ := h.issued k d hk (by rw [hslot]; exact Nat.lt_of_succ_lt hlt)
      rw [hslot] at hle
      rw [hr, hnew hlt]
      exact genAfter_injOn (Nat.lt_succ_of_le hle) hlt hpos

theorem restart (h : Inv n s) (hresting : ∀ c ∈ s.tenancies, c.pc.resting = true) :
    Inv n ⟨s.table.init n, s.tenancies.map fun c => { c with pc := .ended }⟩ := by
  have hkey : (s.tenancies.map fun c => { c with pc := TenancyPc.ended }).map SlotTenancy.key =
      s.tenancies.map SlotTenancy.key := by
    rw [List.map_map]
    rfl
  have hacq : ∀ i, SlotRun.acquisitions
      ⟨s.table.init n, s.tenancies.map fun c => { c with pc := .ended }⟩ i = s.acquisitions i :=
    acquisitions_congr hkey
  have hended : ∀ (k : ℕ) (d : SlotTenancy),
      (s.tenancies.map fun c => { c with pc := TenancyPc.ended })[k]? = some d → d.pc = .ended ∧
        ∃ c, s.tenancies[k]? = some c ∧ c.slot = d.slot ∧ c.gen = d.gen := by
    intro k d hd
    rw [List.getElem?_map, Option.map_eq_some_iff] at hd
    obtain ⟨c, hc, rfl⟩ := hd
    exact ⟨rfl, c, hc, rfl, rfl⟩
  refine ⟨fun i => ?_, fun k d hd hpc => ?_, fun k d hd j hpc => ?_, fun k d hd hpc => ?_,
    fun i hi hlt _ => ?_, fun k d hd hlive => absurd (hended k d hd).1 hlive,
    fun k d hd hlive => absurd (hended k d hd).1 hlive, fun k d hd hlt => ?_, ?_⟩
  · have hfree : (s.table.init n).free = List.range n := by
      refine (List.map_congr_left fun i hi => ?_).trans (List.map_id _)
      exact if_pos (List.mem_range.mp hi)
    have hnone : Tally.total (SlotTenancy.holds i)
        (s.tenancies.map fun c => { c with pc := TenancyPc.ended }) = 0 := by
      refine Tally.total_eq_zero fun d hd => ?_
      obtain ⟨c, -, rfl⟩ := List.mem_map.mp hd
      simp [SlotTenancy.holds]
    show (s.table.init n).free.count i + _ = _
    rw [hfree, hnone, List.nodup_range.count]
    simp
  · rcases hpc with hpc | hpc | hpc <;> cases hpc.symm.trans (hended k d hd).1
  · rcases hpc with hpc | hpc <;> cases hpc.symm.trans (hended k d hd).1
  · rw [(hended k d hd).1] at hpc
    cases hpc
  · rw [hacq] at hlt ⊢
    have hmem : s.table.gen i = genAfter (s.acquisitions i) := by
      refine h.memory i hi hlt fun k c hc _ hpc => ?_
      have hrest := hresting c (List.mem_of_getElem? hc)
      rw [hpc] at hrest
      cases hrest
    have hne : s.table.gen i ≠ 0 := by
      rw [hmem]
      intro hzero
      have hval : (genAfter (s.acquisitions i)).toNat = 0 := congrArg BitVec.toNat hzero
      simp only [genAfter, BitVec.toNat_ofNat] at hval
      omega
    exact (if_neg fun hz => hne hz.2).trans hmem
  · obtain ⟨-, c, hc, hslot, hgen⟩ := hended k d hd
    rw [hacq, ← hslot] at hlt ⊢
    rw [← hgen]
    exact h.issued k c hc hlt
  · refine distinct_congr (P := fun i => SlotRun.acquisitions
      ⟨s.table.init n, s.tenancies.map fun c => { c with pc := .ended }⟩ i < 2 ^ 32) hkey ?_
    simpa only [hacq] using h.distinct

theorem step {e : SlotEvent} (h : Inv n s) (hstep : s.step n e = some t) : Inv n t := by
  cases e with
  | acquire =>
      simp only [SlotRun.step] at hstep
      split at hstep
      case isTrue =>
        cases hstep
        exact h
      case isFalse htop =>
        cases hstep
        exact h.acquire htop rfl rfl
  | next k =>
      simp only [SlotRun.step] at hstep
      cases hk : s.tenancies[k]? with
      | none =>
          rw [hk] at hstep
          cases hstep
      | some c =>
          simp only [hk, Option.map_eq_some_iff] at hstep
          obtain ⟨⟨table, pc⟩, hnext, rfl⟩ := hstep
          exact h.next hk hnext
  | finalize k =>
      simp only [SlotRun.step] at hstep
      cases hk : s.tenancies[k]? with
      | none =>
          rw [hk] at hstep
          cases hstep
      | some c =>
          simp only [hk] at hstep
          split_ifs at hstep with hpc hfin
          · cases hstep
            exact h
          · cases hstep
            refine h.finalize hk (hpc.resolve_right fun hreleasing => ?_)
            exact hfin (h.guarded k c hk hreleasing)
  | restart =>
      simp only [SlotRun.step] at hstep
      split at hstep
      case isTrue hresting =>
        cases hstep
        exact h.restart (List.all_eq_true.mp hresting)
      case isFalse => cases hstep

theorem of_run {es : List SlotEvent} (hrun : run (SlotRun.step n) (SlotRun.init n) es = some s) :
    Inv n s :=
  run_invariant (fun _ _ _ h hstep => h.step hstep) (init n) hrun

end Inv

/-! ### What the allocator guarantees -/

/-- What holds between any two steps of an allocator with `n` slots. -/
structure TableSafe (n : ℕ) (s : SlotRun) : Prop where
  /-- The stack, the owned slots and those on their way back are all the slots, each once. -/
  partition : (s.table.free ++ s.owned ++ s.inTransit).Perm (List.range n)
  top_le : s.table.freeSlotTop ≤ n
  /-- No push writes behind the array. -/
  room : ∀ c ∈ s.tenancies, ∀ idx, c.pc = .push idx → s.table.freeSlotTop < n ∧ idx = c.slot
  one_tenancy : ∀ (k k' : ℕ) (c c' : SlotTenancy), s.tenancies[k]? = some c →
    s.tenancies[k']? = some c' → c.pc ≠ .ended → c'.pc ≠ .ended → c.slot = c'.slot → k = k'
  /-- Behind the stores of `slot_acquire`, the slot has the generation of its tenancy. -/
  kept : ∀ c ∈ s.tenancies, c.pc ≠ .ended → c.pc ≠ .storeGen → s.table.gen c.slot = c.gen
  generations : s.tenancies.Pairwise fun c d => c.slot = d.slot →
    s.acquisitions c.slot < 2 ^ 32 → c.gen ≠ d.gen

theorem Inv.tableSafe (h : Inv n s) : TableSafe n s := by
  have hperm : (s.table.free ++ s.owned ++ s.inTransit).Perm (List.range n) := by
    refine List.perm_iff_count.mpr fun i => ?_
    rw [List.count_append, List.count_append, Nat.add_assoc, count_owned_add_count_inTransit,
      h.partition i, List.nodup_range.count]
    simp
  have hlength := hperm.length_eq
  have htop : s.table.free.length = s.table.freeSlotTop := by simp [SlotTable.free]
  rw [List.length_append, List.length_append, List.length_range, htop] at hlength
  refine ⟨hperm, by omega, fun c hc idx hpc => ⟨?_, ?_⟩,
    fun k k' c c' hk hk' hlive hlive' => h.unique hk hk' hlive hlive', fun c hc hlive hstore => ?_,
    h.distinct⟩
  · have hpos : 0 < s.inTransit.length := by
      refine List.length_pos_of_mem (a := c.slot) (List.mem_map_of_mem (List.mem_filter.mpr ⟨hc, ?_⟩))
      rw [hpc]
      rfl
    omega
  · obtain ⟨k, hk⟩ := List.mem_iff_getElem?.mp hc
    exact h.idx_eq k c hk idx (Or.inr hpc)
  · obtain ⟨k, hk⟩ := List.mem_iff_getElem?.mp hc
    exact h.kept k c hk hlive hstore

end SlotRun

open SlotRun in
/-- For both engines, in every interleaving of acquisitions and releases and across restarts, the
table of slots is safe. -/
theorem slot_allocator (e : Engine) (es : List SlotEvent) (s : SlotRun)
    (hrun : run (SlotRun.step e.slotCount) (SlotRun.init e.slotCount) es = some s) :
    TableSafe e.slotCount s :=
  (Inv.of_run hrun).tableSafe

open SlotRun in
/-- Two tenancies of one slot, with a restart before the second. -/
theorem slot_allocator_restarted : ∃ s, run (SlotRun.step Engine.tcp.slotCount)
      (SlotRun.init Engine.tcp.slotCount)
      [.acquire, .next 0, .next 0, .next 0, .next 0, .finalize 0, .finalize 0, .next 0, .next 0,
        .next 0, .restart, .acquire, .next 1] = some s ∧
    TableSafe Engine.tcp.slotCount s ∧ s.tenancies = [⟨1087, 2, .ended⟩, ⟨1087, 3, .storeGen⟩] := by
  obtain ⟨s, hrun, heq⟩ := (exists_run_of_any rfl :
    ∃ s, run (SlotRun.step Engine.tcp.slotCount) (SlotRun.init Engine.tcp.slotCount)
      [.acquire, .next 0, .next 0, .next 0, .next 0, .finalize 0, .finalize 0, .next 0, .next 0,
        .next 0, .restart, .acquire, .next 1] = some s ∧
      s.tenancies = [⟨1087, 2, .ended⟩, ⟨1087, 3, .storeGen⟩])
  exact ⟨s, hrun, slot_allocator .tcp _ s hrun, heq⟩

end FiveGProxy
