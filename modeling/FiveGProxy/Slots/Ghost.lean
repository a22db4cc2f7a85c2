import FiveGProxy.Slots.Discipline

/-!
# Stale events

An event may be delivered long after its connection is gone, and to any worker. It is recognised by
the generation in its identifier, as long as two connections of a slot never share a generation and
no identifier looks like the shutdown pipe or the wake-up of the resolvers.
-/

namespace FiveGProxy

open Steps

variable {e : Engine} {st st' : EpollEngine}

/-- No generation is incremented `2 ^ 32` times, and the one of slot 0 never becomes 0: with it the
identifier of the client would be the one of the shutdown pipe. -/
def GenFresh (st : EpollEngine) : List ℕ → Prop
  | [] => True
  | s :: _ => st.tenancy s + 1 < 2 ^ 32 ∧ (s = 0 → (st.conn s).gen + 1 ≠ 0)

def OwnAndFresh (e : Engine) (st : EpollEngine) (ev : EngineEvent) : Prop :=
  match ev with
  | .handoff .. => GenFresh st st.freeSlots
  | ev => ActsOnOwn e st ev

instance (st : EpollEngine) (l : List ℕ) : Decidable (GenFresh st l) :=
  match l with
  | [] => inferInstanceAs (Decidable True)
  | _ :: _ => inferInstanceAs (Decidable (_ ∧ _))

instance (e : Engine) (st : EpollEngine) (ev : EngineEvent) : Decidable (OwnAndFresh e st ev) :=
  match ev with
  | .handoff .. => inferInstanceAs (Decidable (GenFresh st st.freeSlots))
  | .quit => inferInstanceAs (Decidable (ActsOnOwn e st .quit))
  | .restart => inferInstanceAs (Decidable (ActsOnOwn e st .restart))
  | .handshake h ok => inferInstanceAs (Decidable (ActsOnOwn e st (.handshake h ok)))
  | .worker w choice batch => inferInstanceAs (Decidable (ActsOnOwn e st (.worker w choice batch)))

theorem OwnAndFresh.actsOnOwn {ev : EngineEvent} (h : OwnAndFresh e st ev) : ActsOnOwn e st ev := by
  cases ev with
  | handoff i idx roles => trivial
  | quit | restart | handshake i ok | worker w choice batch => exact h

/-! ### Generations -/

theorem genOf_eq_zero {n : ℕ} (hn : n < 2 ^ 32) : genOf n = 0 ↔ n = 2 ^ 32 - 1 := by
  have hmod : genOf n = 0 ↔ (n + 1) % 2 ^ 32 = 0 := by
    rw [genOf, ← BitVec.toNat_inj, BitVec.toNat_ofNat]
    rfl
  rw [hmod]
  omega

/-- Fewer than `2 ^ 32` increments apart, two tenancies with one generation are the same. -/
theorem genOf_inj {m n : ℕ} (hm : 1 ≤ m) (hm' : m ≤ 2 ^ 32) (hn : 1 ≤ n) (hn' : n ≤ 2 ^ 32)
    (h : genOf m = genOf n) : m = n := by
  rw [genOf, genOf, ← BitVec.toNat_inj, BitVec.toNat_ofNat, BitVec.toNat_ofNat] at h
  omega

/-- How far the generations have come. -/
structure GensBounded (st : EpollEngine) : Prop where
  all : ∀ s, st.tenancy s ≤ 2 ^ 32
  zero : st.tenancy 0 < 2 ^ 32 - 1

theorem RunInv.gen_free (h : RunInv e st) {s : ℕ} {rest : List ℕ} (hfree : st.freeSlots = s :: rest) :
    (st.conn s).gen = genOf (st.tenancy s) := by
  obtain ⟨own, hb, hp, ha⟩ := h.engine
  have hown := (hb.free.2 s (hfree ▸ List.mem_cons_self)).1
  exact hp.gen_eq ha fun i hi => by simp [hown] at hi

theorem GensBounded.restart (h : GensBounded st) (hgens : ∀ s, (st.conn s).gen = genOf (st.tenancy s)) :
    GensBounded (st.slotsInit e) := by
  constructor
  · intro s
    have hs := h.all s
    simp only [EpollEngine.slotsInit]
    split
    case isTrue hzero =>
      -- a generation that has come to `2 ^ 32` increments is 1
      have hne : st.tenancy s ≠ 2 ^ 32 := by
        intro heq
        rw [hgens s, heq] at hzero
        exact absurd hzero (by decide)
      omega
    case isFalse => exact hs
  · have hz := h.zero
    simp only [EpollEngine.slotsInit]
    split
    case isTrue hzero =>
      rw [hgens 0, genOf_eq_zero (by omega)] at hzero
      omega
    case isFalse => exact hz

theorem GensBounded.step {ev : EngineEvent} (h : GensBounded st) (hinv : RunInv e st)
    (hcond : OwnAndFresh e st ev) (hstep : engineStep e st ev = some st') : GensBounded st' := by
  cases ev with
  | quit =>
      obtain rfl := Option.some.inj hstep
      exact ⟨h.all, h.zero⟩
  | restart =>
      simp only [engineStep] at hstep
      split at hstep
      case isTrue hended =>
        obtain rfl := Option.some.inj hstep
        exact h.restart (hinv.gens_of_ended hended)
      case isFalse => cases hstep
  | handoff i idx roles =>
      simp only [engineStep, EpollEngine.handoffStep] at hstep
      split at hstep
      case isFalse => cases hstep
      case isTrue =>
        split at hstep
        case h_1 =>
          obtain rfl := Option.some.inj hstep
          exact h
        case h_2 s rest hfree =>
          obtain rfl := Option.some.inj hstep
          have hgen : GenFresh st (s :: rest) := hfree ▸ hcond
          obtain ⟨hlt, hzero⟩ := hgen
          constructor
          · intro t
            dsimp only
            by_cases ht : t = s
            · subst ht
              rw [Function.update_self]
              exact Nat.le_of_lt hlt
            · rw [Function.update_of_ne ht]
              exact h.all t
          · dsimp only
            by_cases hs : 0 = s
            · subst hs
              have hne := hzero rfl
              rw [hinv.gen_free hfree, ← genOf_succ, Ne, genOf_eq_zero hlt] at hne
              rw [Function.update_self]
              omega
            · rw [Function.update_of_ne hs]
              exact h.zero
  | handshake i ok =>
      obtain ⟨-, -, -, htenancy, -⟩ := handshakeStep_same hstep
      exact ⟨htenancy ▸ h.all, htenancy ▸ h.zero⟩
  | worker w choice batch =>
      simp only [engineStep] at hstep
      split at hstep
      case isFalse => cases hstep
      case isTrue =>
        obtain ⟨-, -, htenancy, -⟩ := workerStep_same (hinv.delivered w) hstep
        exact ⟨htenancy ▸ h.all, htenancy ▸ h.zero⟩

/-! ### Verdicts -/

/-- An event passes only when its identifier was handed out for the connection that has the slot
now, and that connection is registered, open, not being finalized and, for TCP, this worker's; the
slot and the role that are decoded are the ones encoded, and no identifier is one of the two that
stand for something else. -/
structure NoGhost (e : Engine) (st : EpollEngine) : Prop where
  issued : ∀ v ∈ st.verdicts, ∃ i ∈ st.issued, i.raw = v.raw
  current : ∀ v ∈ st.verdicts, ∀ i ∈ st.issued, i.raw = v.raw → i.ref = v.ref ∧ i.role = v.role
  live : ∀ v ∈ st.verdicts, v.conn.registered = true ∧ v.conn.closed = false ∧
    v.conn.refs = 1 ∧ v.conn.finalized = false ∧ (e = .tcp → v.conn.widx = v.worker)
  decoded : ∀ i ∈ st.issued, e.decode i.raw =
    ⟨BitVec.ofNat 32 i.ref.slot, genOf i.ref.tenancy, i.role⟩ ∧ i.ref.slot < e.slotCount
  special : ∀ i ∈ st.issued, i.raw ≠ 0 ∧ i.raw ≠ udpEvDnsWake

theorem Issued.Ok.decode {n : ℕ → ℕ} {i : Issued} (h : i.Ok e n) :
    e.decode i.raw = ⟨BitVec.ofNat 32 i.ref.slot, genOf i.ref.tenancy, i.role⟩ := by
  rw [h.1]
  exact e.decode_epKey h.2.1 h.2.2.1

theorem Issued.Ok.unique {i j : Issued} (hb : GensBounded st) (hi : i.Ok e st.tenancy)
    (hj : j.Ok e st.tenancy) (hraw : i.raw = j.raw) : i.ref = j.ref ∧ i.role = j.role := by
  have hkey := hi.decode.symm.trans (hraw ▸ hj.decode)
  rw [EventKey.mk.injEq] at hkey
  obtain ⟨hslot, hgen, hrole⟩ := hkey
  obtain ⟨-, hilt, -, hione, hile⟩ := hi
  obtain ⟨-, hjlt, -, hjone, hjle⟩ := hj
  have hcount : e.slotCount = 1088 := by cases e <;> rfl
  have hs : i.ref.slot = j.ref.slot := by
    rw [← BitVec.toNat_inj, BitVec.toNat_ofNat, BitVec.toNat_ofNat] at hslot
    omega
  have ht : i.ref.tenancy = j.ref.tenancy :=
    genOf_inj hione (Nat.le_trans hile (hb.all _)) hjone (Nat.le_trans hjle (hb.all _)) hgen
  refine ⟨?_, hrole⟩
  rcases hir : i.ref with ⟨s, n⟩
  rcases hjr : j.ref with ⟨s', n'⟩
  simp_all

theorem RunInv.noGhost (h : RunInv e st) (hbounded : GensBounded st) : NoGhost e st := by
  obtain ⟨own, hb, -, -⟩ := h.engine
  refine ⟨fun v hv => ?_, fun v hv i hi hraw => ?_, fun v hv => ?_, fun i hi => ?_, fun i hi => ?_⟩
  · obtain ⟨i, hi, hraw, -⟩ := (hb.verdicts v hv).issued
    exact ⟨i, hi, hraw⟩
  · obtain ⟨j, hj, hjraw, hjrole, hjslot, hjgen, hjle⟩ := (hb.verdicts v hv).issued
    obtain ⟨href, hrole⟩ := (hb.issued i hi).unique hbounded (hb.issued j hj) (hraw.trans hjraw.symm)
    have hjone := (hb.issued j hj).2.2.2.1
    have hle := Nat.le_trans (hb.verdicts v hv).tenancy (hbounded.all v.ref.slot)
    have ht : j.ref.tenancy = v.ref.tenancy :=
      genOf_inj hjone (Nat.le_trans hjle hle) (Nat.le_trans hjone hjle) hle hjgen
    refine ⟨?_, hrole.trans hjrole⟩
    rw [href]
    rcases hjr : j.ref with ⟨s, n⟩
    rcases hvr : v.ref with ⟨s', n'⟩
    simp_all
  · obtain ⟨-, -, hreg, hclosed, hrefs, hfin, hown⟩ := hb.verdicts v hv
    exact ⟨hreg, hclosed, hrefs, hfin, hown⟩
  · exact ⟨(hb.issued i hi).decode, (hb.issued i hi).2.1⟩
  · obtain ⟨henc, hlt, -, -, hle⟩ := hb.issued i hi
    have hcount : e.slotCount = 1088 := by cases e <;> rfl
    rw [henc]
    refine ⟨Engine.epKey_ne_zero (by omega) _ fun hs hgen => ?_, e.epKey_ne_dnsWake _ hlt _⟩
    have hzero := hbounded.zero
    rw [hs] at hle
    rw [genOf_eq_zero (by omega)] at hgen
    omega

/-- In every run whose steps meet the condition no event reaches a connection that it was not issued
for. -/
theorem no_ghost_dispatch {evs : List EngineEvent}
    (hmeets : Meets (engineStep e) (OwnAndFresh e) (EpollEngine.init e) evs)
    (hrun : run (engineStep e) (EpollEngine.init e) evs = some st) : NoGhost e st := by
  have hinit : RunInv e (EpollEngine.init e) ∧ GensBounded (EpollEngine.init e) :=
    ⟨RunInv.init e, fun _ => Nat.zero_le _, (by decide : 0 < 2 ^ 32 - 1)⟩
  obtain ⟨hinv, hbounded⟩ :=
    run_invariant_of_meets (P := fun st => RunInv e st ∧ GensBounded st)
      (fun _ _ _ h hcond hstep => ⟨h.1.step hcond.actsOnOwn hstep, h.2.step h.1 hcond hstep⟩)
      hinit hmeets hrun
  exact hinv.noGhost hbounded

theorem no_ghost_dispatch_secondTenancy :
    ∃ st, run (engineStep .tcp) (EpollEngine.init .tcp) secondTenancy = some st ∧
      st.verdicts.map Verdict.ref = [⟨1087, 1⟩, ⟨1087, 2⟩] ∧ NoGhost .tcp st := by
  obtain ⟨st, hst, hverdicts⟩ := exists_run_of_any (by decide +kernel :
    (run (engineStep .tcp) (EpollEngine.init .tcp) secondTenancy).any
      (fun st => decide (st.verdicts.map Verdict.ref = [⟨1087, 1⟩, ⟨1087, 2⟩])) = true)
  exact ⟨st, hst, hverdicts, no_ghost_dispatch (by decide +kernel) hst⟩

/-- Worker 0 has left its loop and unreferences its old pointer; worker 1 then gets an event of the
connection that has the slot now. -/
def dispatchWhileFinalizing : List EngineEvent :=
  List.flatten [firstTurn, handOver 1 1, [.worker 1 true [], .quit],
    List.replicate 7 (.worker 0 true []), [.worker 1 true [epKey 3 1087]],
    List.replicate 8 (.worker 1 true [])]

/-- The event passes although the connection is being finalized. -/
theorem dispatched_while_finalizing : ∃ st,
    run (engineStep .tcp) (EpollEngine.init .tcp) dispatchWhileFinalizing = some st ∧
      ¬ NoGhost .tcp st := by
  obtain ⟨st, hst, hlog⟩ := Option.map_eq_some_iff.mp
    (by decide +kernel :
      (run (engineStep .tcp) (EpollEngine.init .tcp) dispatchWhileFinalizing).map
        (fun st => st.verdicts.map fun v => (v.ref, v.conn.refs, v.conn.finalized)) =
        some [(⟨1087, 1⟩, 1, false), (⟨1087, 2⟩, 0, true)])
  refine ⟨st, hst, fun h => ?_⟩
  obtain ⟨v, hv, hvlog⟩ := List.mem_map.mp
    (hlog ▸ (by simp) : ((⟨1087, 2⟩, 0, true) : Ref × ℤ × Bool) ∈
      st.verdicts.map fun v => (v.ref, v.conn.refs, v.conn.finalized))
  obtain ⟨-, -, -, hfin, -⟩ := h.live v hv
  simp [hfin] at hvlog

end FiveGProxy
