import FiveGProxy.Slots.Identifier
import FiveGProxy.Kernel.Socket
import FiveGProxy.Library.Steps
import Mathlib.Logic.Function.Basic

/-!
# Cutting off ghost events

`ghost_stuck_track` counts the residual events of an identifier in a table and calls `stamp_purge`
when `GHOST_PURGE_THRESHOLD` of them have come. The place in the table is taken from bits that are
zero in every identifier that `handoff_to_worker` issues, so all of them share one entry, and the
count of one begins again whenever another one is reported. A ghost is cut off when it is reported
without the others in between.

A call is a section under `g_stuck_lock`, the call of `stamp_purge` without it, and a second section
that sets the count to zero when the purge has found the stamp.
-/

namespace FiveGProxy

open Steps

abbrev ghostPurgeThreshold : ℕ := 5000

def ghostStuckShouldLog (count : ℕ) : Bool :=
  count == 32 || count == 200 || count == 1000 || count == 5000 || count == 25000 ||
    (decide (25000 < count) && count % 50000 == 0)

def ghostStuckShouldPurge (count : ℕ) : Bool :=
  count == ghostPurgeThreshold ||
    (decide (ghostPurgeThreshold < count) && count % ghostPurgeThreshold == 0)

/-- The place of an identifier in `g_stuck`: `(u64 >> 13) & STUCK_TRACK_MASK`. -/
def stuckIndex (u64 : BitVec 64) : BitVec 64 := (u64 >>> 13) &&& 511#64

/-- `stuck_ent_t`. -/
structure StuckEnt where
  u64 : BitVec 64
  count : ℕ
  lastLog : Time
  used : Bool

def StuckEnt.report (e : StuckEnt) (u64 : BitVec 64) : StuckEnt :=
  if e.used = false ∨ e.u64 ≠ u64 then ⟨u64, 1, 0, true⟩ else { e with count := e.count + 1 }

/-- Where a worker is in `ghost_stuck_track`: it has decided, or it will set the count to zero. -/
inductive TrackPc
  | idle
  | decided (u64 : BitVec 64) (count : ℕ) (doLog doPurge : Bool)
  | reset (i : BitVec 64)

structure StuckTable where
  gStuck : BitVec 64 → StuckEnt
  pc : Fin workerCount → TrackPc
  /-- `g_ghost_purged`. -/
  ghostPurged : ℕ
  /-- The identifiers with their counts in the log. -/
  logged : List (BitVec 64 × ℕ)

/-- `found` says whether `stamp_purge` finds the identifier among the recorded stamps. -/
inductive TrackEvent
  | track (w : Fin workerCount) (gen : BitVec 32) (slot : ℕ) (now : Time)
  | act (w : Fin workerCount) (found : Bool)
  | reset (w : Fin workerCount)

namespace StuckTable

def init : StuckTable where
  gStuck := fun _ => ⟨0, 0, 0, false⟩
  pc := fun _ => .idle
  ghostPurged := 0
  logged := []

def setPc (s : StuckTable) (w : Fin workerCount) (pc : TrackPc) : StuckTable :=
  { s with pc := Function.update s.pc w pc }

def setEnt (s : StuckTable) (i : BitVec 64) (e : StuckEnt) : StuckTable :=
  { s with gStuck := Function.update s.gStuck i e }

def track (s : StuckTable) (w : Fin workerCount) (u64 : BitVec 64) (now : Time) : StuckTable :=
  let e := (s.gStuck (stuckIndex u64)).report u64
  let doLog := ghostStuckShouldLog e.count && decide (1 ≤ now - e.lastLog)
  (s.setEnt (stuckIndex u64) (if doLog then { e with lastLog := now } else e)).setPc w
    (.decided u64 e.count doLog (ghostStuckShouldPurge e.count))

def act (s : StuckTable) (w : Fin workerCount) (u64 : BitVec 64) (count : ℕ)
    (doLog doPurge found : Bool) : StuckTable :=
  let s := if doLog then { s with logged := s.logged ++ [(u64, count)] } else s
  if doPurge && found then
    setPc { s with ghostPurged := s.ghostPurged + 1 } w (.reset (stuckIndex u64))
  else s.setPc w .idle

def step : Step StuckTable TrackEvent := fun s ev =>
  match ev with
  | .track w gen slot now =>
      match s.pc w with
      | .idle => if slot < connSlotCount then some (s.track w (epKey gen slot) now) else none
      | .decided .. | .reset _ => none
  | .act w found =>
      match s.pc w with
      | .decided u64 count doLog doPurge => some (s.act w u64 count doLog doPurge found)
      | .idle | .reset _ => none
  | .reset w =>
      match s.pc w with
      | .reset i => some ((s.setEnt i { s.gStuck i with count := 0 }).setPc w .idle)
      | .idle | .decided .. => none

/-- A worker goes on to call `stamp_purge` for the identifier. -/
def Purging (s : StuckTable) (u64 : BitVec 64) : Prop :=
  ∃ w count doLog, s.pc w = .decided u64 count doLog true

end StuckTable

/-- How often each identifier has been reported since `stamp_purge` was last called for it. -/
abbrev ReportLog := BitVec 64 → ℕ

def recordReports (s : StuckTable) (ev : TrackEvent) (since : ReportLog) : ReportLog :=
  match ev with
  | .track _ gen slot _ => Function.update since (epKey gen slot) (since (epKey gen slot) + 1)
  | .act w _ =>
      match s.pc w with
      | .decided u64 _ _ true => Function.update since u64 0
      | _ => since
  | .reset _ => since

/-- Whoever has been reported `GHOST_PURGE_THRESHOLD` times since its last purge is being purged,
and no identifier has lost its count. -/
structure StormsCut (s : StuckTable) (since : ReportLog) : Prop where
  cut : ∀ u64, ghostPurgeThreshold ≤ since u64 → s.Purging u64
  counted : ∀ u64, 0 < since u64 → s.Purging u64 ∨
    (s.gStuck (stuckIndex u64)).used = true ∧ (s.gStuck (stuckIndex u64)).u64 = u64 ∧
      since u64 ≤ (s.gStuck (stuckIndex u64)).count

/-- No identifier has been reported since its last purge, but those that are being purged. -/
def Settled (s : StuckTable) (since : ReportLog) (u64 : BitVec 64) : Prop :=
  since u64 = 0 ∨ s.Purging u64

/-- An identifier is reported while no other one has reports, and the count is set to zero while
none has. -/
def Alone (p : StuckTable × ReportLog) : TrackEvent → Prop
  | .track _ gen slot _ => ∀ u64 ≠ epKey gen slot, Settled p.1 p.2 u64
  | .act .. => True
  | .reset _ => ∀ u64, Settled p.1 p.2 u64

/-! ### The entry of the table -/

theorem stuckIndex_epKey (gen : BitVec 32) {slot : ℕ} (h : slot < connSlotCount) :
    stuckIndex (epKey gen slot) = 0 := by
  apply BitVec.eq_of_getLsbD_eq
  intro i hi
  have hmask : (511#64).getLsbD i = decide (i < 9) := by
    rw [show 511#64 = (BitVec.allOnes 9).setWidth 64 by decide, BitVec.getLsbD_setWidth,
      BitVec.getLsbD_allOnes]
    simp
    omega
  rw [stuckIndex, BitVec.getLsbD_and, hmask, BitVec.getLsbD_ushiftRight]
  by_cases hlow : i < 9
  · have hslot : slot.testBit (13 + i) = false := by
      apply Nat.testBit_lt_two_pow
      calc slot < 2 ^ 13 := Nat.lt_trans h (by decide)
        _ ≤ 2 ^ (13 + i) := Nat.pow_le_pow_right (by decide) (Nat.le_add_right 13 i)
    rw [getLsbD_epKey gen slot (by omega), if_pos (by omega), hslot]
    simp
  · simp [hlow]

theorem ghostStuckShouldPurge_iff {count : ℕ} :
    ghostStuckShouldPurge count = true ↔ 0 < count ∧ count % ghostPurgeThreshold = 0 := by
  simp only [ghostStuckShouldPurge, ghostPurgeThreshold, Bool.or_eq_true, Bool.and_eq_true,
    beq_iff_eq, decide_eq_true_eq]
  omega

theorem StuckEnt.report_own (e : StuckEnt) (u64 : BitVec 64) :
    (e.report u64).u64 = u64 ∧ (e.report u64).used = true := by
  unfold StuckEnt.report
  split
  case isTrue => exact ⟨rfl, rfl⟩
  case isFalse hown =>
    rw [not_or, Bool.not_eq_false, not_not] at hown
    exact ⟨hown.2, hown.1⟩

theorem StuckEnt.report_count {e : StuckEnt} {u64 : BitVec 64} (hused : e.used = true)
    (hown : e.u64 = u64) : (e.report u64).count = e.count + 1 := by
  rw [StuckEnt.report, if_neg]
  simp [hused, hown]

theorem StuckEnt.report_other {e : StuckEnt} {u64 : BitVec 64}
    (hother : e.used = false ∨ e.u64 ≠ u64) : (e.report u64).count = 1 := by
  rw [StuckEnt.report, if_pos hother]

theorem StuckEnt.report_pos (e : StuckEnt) (u64 : BitVec 64) : 0 < (e.report u64).count := by
  unfold StuckEnt.report
  split
  · exact Nat.one_pos
  · exact Nat.succ_pos _

namespace StuckTable

variable {s : StuckTable} {w : Fin workerCount} {u64 v64 : BitVec 64}

theorem track_entry (s : StuckTable) (w : Fin workerCount) (u64 : BitVec 64) (now : Time) :
    ∃ lastLog, (s.track w u64 now).gStuck = Function.update s.gStuck (stuckIndex u64)
      { (s.gStuck (stuckIndex u64)).report u64 with lastLog := lastLog } := by
  unfold track
  dsimp only
  split
  · exact ⟨now, rfl⟩
  · exact ⟨_, rfl⟩

theorem track_pc (s : StuckTable) (w : Fin workerCount) (u64 : BitVec 64) (now : Time) :
    ∃ doLog, (s.track w u64 now).pc = Function.update s.pc w
      (.decided u64 ((s.gStuck (stuckIndex u64)).report u64).count doLog
        (ghostStuckShouldPurge ((s.gStuck (stuckIndex u64)).report u64).count)) :=
  ⟨_, rfl⟩

/-- Whoever is being purged stays so while another worker, or one with another decision, goes on. -/
theorem Purging.of_update {t : StuckTable} {pc : TrackPc} (h : s.Purging v64)
    (hpc : t.pc = Function.update s.pc w pc)
    (hw : ∀ count doLog, s.pc w ≠ .decided v64 count doLog true) : t.Purging v64 := by
  obtain ⟨w', count, doLog, hw'⟩ := h
  refine ⟨w', count, doLog, ?_⟩
  have hne : w' ≠ w := by
    rintro rfl
    exact hw count doLog hw'
  rw [hpc, Function.update_of_ne hne, hw']

theorem act_gStuck (s : StuckTable) (w : Fin workerCount) (u64 : BitVec 64) (count : ℕ)
    (doLog doPurge found : Bool) : (s.act w u64 count doLog doPurge found).gStuck = s.gStuck := by
  unfold act
  split <;> split <;> rfl

theorem act_pc (s : StuckTable) (w : Fin workerCount) (u64 : BitVec 64) (count : ℕ)
    (doLog doPurge found : Bool) :
    ∃ pc, (s.act w u64 count doLog doPurge found).pc = Function.update s.pc w pc := by
  unfold act
  split <;> split <;> exact ⟨_, rfl⟩

theorem act_pc_of_few (s : StuckTable) (w : Fin workerCount) (u64 : BitVec 64) (count : ℕ)
    (doLog found : Bool) :
    (s.act w u64 count doLog false found).pc = Function.update s.pc w .idle := by
  cases doLog <;> rfl

end StuckTable

def StormInv (s : StuckTable) (since : ReportLog) : Prop :=
  ∀ u64, Settled s since u64 ∨ since u64 < ghostPurgeThreshold ∧
    (s.gStuck (stuckIndex u64)).used = true ∧ (s.gStuck (stuckIndex u64)).u64 = u64 ∧
      since u64 ≤ (s.gStuck (stuckIndex u64)).count % ghostPurgeThreshold

namespace StormInv

variable {s : StuckTable} {since : ReportLog} {w : Fin workerCount}

theorem init : StormInv .init fun _ => 0 :=
  fun _ => Or.inl (Or.inl rfl)

theorem stormsCut (h : StormInv s since) : StormsCut s since where
  cut u64 hmany := by
    rcases h u64 with (hzero | hpurging) | ⟨hlt, -⟩
    · rw [hzero] at hmany
      exact absurd hmany (by decide)
    · exact hpurging
    · exact absurd hmany (Nat.not_le.mpr hlt)
  counted u64 hpos := by
    rcases h u64 with (hzero | hpurging) | ⟨-, hused, hown, hle⟩
    · exact absurd hzero (Nat.ne_of_gt hpos)
    · exact Or.inl hpurging
    · exact Or.inr ⟨hused, hown, Nat.le_trans hle (Nat.mod_le _ _)⟩

/-- What the entry says of an identifier after one more report of it. -/
theorem entry_track (h : StormInv s since) (u64 : BitVec 64) (hsince : ¬s.Purging u64)
    (hfull : ghostStuckShouldPurge ((s.gStuck (stuckIndex u64)).report u64).count = false) :
    since u64 + 1 < ghostPurgeThreshold ∧ since u64 + 1 ≤
      ((s.gStuck (stuckIndex u64)).report u64).count % ghostPurgeThreshold := by
  have hpos := (s.gStuck (stuckIndex u64)).report_pos u64
  rw [← Bool.not_eq_true, ghostStuckShouldPurge_iff] at hfull
  rcases h u64 with (hzero | hpurging) | ⟨hlt, hused, hown, hle⟩
  · rw [hzero]
    simp only [ghostPurgeThreshold] at hfull ⊢
    omega
  · exact absurd hpurging hsince
  · rw [StuckEnt.report_count hused hown] at hfull hpos ⊢
    simp only [ghostPurgeThreshold] at hfull hle hlt ⊢
    omega

theorem track (h : StormInv s since) {gen : BitVec 32} {slot : ℕ} {now : Time}
    (hpc : s.pc w = .idle) (halone : Alone (s, since) (.track w gen slot now)) :
    StormInv (s.track w (epKey gen slot) now) (recordReports s (.track w gen slot now) since) := by
  simp only [recordReports, Alone] at halone ⊢
  generalize epKey gen slot = u64 at halone ⊢
  obtain ⟨lastLog, hent⟩ := s.track_entry w u64 now
  obtain ⟨doLog, hpcs⟩ := s.track_pc w u64 now
  obtain ⟨hown, hused⟩ := (s.gStuck (stuckIndex u64)).report_own u64
  have hkeeps : ∀ v64, s.Purging v64 → (s.track w u64 now).Purging v64 := by
    intro v64 hv
    refine hv.of_update hpcs ?_
    rw [hpc]
    rintro _ _ ⟨⟩
  intro v64
  by_cases hsame : v64 = u64
  · subst hsame
    by_cases hpurging : s.Purging v64
    · exact Or.inl (Or.inr (hkeeps v64 hpurging))
    cases hfull : ghostStuckShouldPurge ((s.gStuck (stuckIndex v64)).report v64).count with
    | true =>
        refine Or.inl (Or.inr ⟨w, ((s.gStuck (stuckIndex v64)).report v64).count, doLog, ?_⟩)
        rw [hpcs, Function.update_self, hfull]
    | false =>
        obtain ⟨hlt, hle⟩ := h.entry_track v64 hpurging hfull
        rw [hent, Function.update_self, Function.update_self]
        exact Or.inr ⟨hlt, hused, hown, hle⟩
  · refine Or.inl ?_
    rcases halone v64 hsame with hzero | hv
    · refine Or.inl ?_
      rw [Function.update_of_ne hsame]
      exact hzero
    · exact Or.inr (hkeeps v64 hv)

theorem act (h : StormInv s since) {u64 : BitVec 64} {count : ℕ} {doLog doPurge found : Bool}
    (hpc : s.pc w = .decided u64 count doLog doPurge) :
    StormInv (s.act w u64 count doLog doPurge found) (recordReports s (.act w found) since) := by
  obtain ⟨pc, hpcs⟩ := s.act_pc w u64 count doLog doPurge found
  have hgStuck := s.act_gStuck w u64 count doLog doPurge found
  have hsince : ∀ v64, recordReports s (.act w found) since v64 =
      if doPurge = true ∧ v64 = u64 then 0 else since v64 := by
    intro v64
    simp only [recordReports, hpc]
    cases doPurge <;> simp [Function.update_apply]
  intro v64
  rw [hsince, hgStuck]
  by_cases hpurged : doPurge = true ∧ v64 = u64
  · refine Or.inl (Or.inl ?_)
    rw [hsince, if_pos hpurged]
  · rw [if_neg hpurged]
    refine (h v64).imp_left fun hsettled => ?_
    rcases hsettled with hzero | hv
    · refine Or.inl ?_
      rw [hsince, if_neg hpurged]
      exact hzero
    · refine Or.inr (hv.of_update hpcs fun c l heq => hpurged ?_)
      obtain ⟨rfl, -, -, rfl⟩ := TrackPc.decided.inj (hpc.symm.trans heq)
      exact ⟨rfl, rfl⟩

theorem reset {i : BitVec 64} (hpc : s.pc w = .reset i) (halone : Alone (s, since) (.reset w)) :
    StormInv ((s.setEnt i { s.gStuck i with count := 0 }).setPc w .idle) since := by
  intro v64
  refine Or.inl ((halone v64).imp_right fun hv => ?_)
  refine @StuckTable.Purging.of_update s w v64 _ .idle hv rfl ?_
  rw [hpc]
  rintro _ _ ⟨⟩

theorem step (h : StormInv s since) {ev : TrackEvent} {t : StuckTable}
    (halone : Alone (s, since) ev) (ht : StuckTable.step s ev = some t) :
    StormInv t (recordReports s ev since) := by
  cases ev with
  | track w gen slot now =>
      simp only [StuckTable.step] at ht
      split at ht
      case h_1 hpc =>
        split at ht
        case isTrue =>
          obtain rfl := Option.some.inj ht
          exact h.track hpc halone
        case isFalse => cases ht
      all_goals cases ht
  | act w found =>
      simp only [StuckTable.step] at ht
      split at ht
      case h_1 hpc =>
        obtain rfl := Option.some.inj ht
        exact h.act hpc
      all_goals cases ht
  | reset w =>
      simp only [StuckTable.step] at ht
      split at ht
      case h_1 hpc =>
        obtain rfl := Option.some.inj ht
        exact reset hpc halone
      all_goals cases ht

end StormInv

/-- In every run in which the identifiers are reported one at a time, every storm is cut. -/
theorem ghost_storms_cut {evs : List TrackEvent} {s : StuckTable} {since : ReportLog}
    (hrun : run (record StuckTable.step recordReports) (.init, fun _ => 0) evs = some (s, since))
    (halone : Meets (record StuckTable.step recordReports) Alone (.init, fun _ => 0) evs) :
    StormsCut s since := by
  have hinv : StormInv s since := run_invariant_of_meets (P := fun p => StormInv p.1 p.2)
    (fun p ev q h hc hq => by
      obtain ⟨ht, hsince⟩ := record_eq_some.mp hq
      exact hsince ▸ h.step hc ht) StormInv.init halone hrun
  exact hinv.stormsCut

/-! ### One ghost, and two at once -/

/-- One report below the threshold, with all workers idle before and after it. -/
theorem report_once {s : StuckTable} (since : ReportLog) {gen : BitVec 32} {slot count : ℕ}
    (hidle : ∀ w, s.pc w = .idle) (hslot : slot < connSlotCount)
    (hcount : ((s.gStuck 0).report (epKey gen slot)).count = count)
    (hfew : ghostStuckShouldPurge count = false) :
    ∃ t, run (record StuckTable.step recordReports) (s, since)
        [.track 0 gen slot 7, .act 0 false] =
          some (t, Function.update since (epKey gen slot) (since (epKey gen slot) + 1)) ∧
      (∀ w, t.pc w = .idle) ∧ (t.gStuck 0).used = true ∧
      (t.gStuck 0).u64 = epKey gen slot ∧ (t.gStuck 0).count = count := by
  subst hcount
  have hindex := stuckIndex_epKey gen hslot
  generalize hu : epKey gen slot = u64 at hindex hfew ⊢
  obtain ⟨lastLog, hent⟩ := s.track_entry 0 u64 7
  obtain ⟨doLog, hpcs⟩ := s.track_pc 0 u64 7
  obtain ⟨hown, hused⟩ := (s.gStuck 0).report_own u64
  rw [hindex, hfew] at hpcs
  rw [hindex] at hent
  refine ⟨(s.track 0 u64 7).act 0 u64 ((s.gStuck 0).report u64).count doLog false false,
    ?_, fun w => ?_, ?_⟩
  · have hfirst : record StuckTable.step recordReports (s, since) (.track 0 gen slot 7) =
        some (s.track 0 u64 7, Function.update since u64 (since u64 + 1)) := by
      refine record_eq_some.mpr ⟨?_, ?_⟩
      · simp only [StuckTable.step, hidle, if_pos hslot, hu]
      · simp only [recordReports, hu]
    refine (run_cons_eq hfirst _).trans (run_cons_eq (record_eq_some.mpr ⟨?_, ?_⟩) [])
    · simp only [StuckTable.step, hpcs, Function.update_self]
    · simp only [recordReports, hpcs, Function.update_self]
  · rw [StuckTable.act_pc_of_few, hpcs, Function.update_idem, Function.update_apply]
    split
    · rfl
    · exact hidle w
  · rw [StuckTable.act_gStuck, hent, Function.update_self]
    exact ⟨hused, hown, rfl⟩

def storm (n : ℕ) : List TrackEvent :=
  (List.replicate n [.track 0 1 5 7, .act 0 false]).flatten

theorem storm_succ (n : ℕ) : storm (n + 1) = storm n ++ [.track 0 1 5 7, .act 0 false] := by
  simp [storm, List.replicate_succ']

theorem meets_report {s : StuckTable} {since : ReportLog} {w : Fin workerCount} {gen : BitVec 32}
    {slot : ℕ} {now : Time} {found : Bool} (hother : ∀ u64 ≠ epKey gen slot, since u64 = 0) :
    Meets (record StuckTable.step recordReports) Alone (s, since)
      [.track w gen slot now, .act w found] := by
  refine ⟨fun u64 hne => Or.inl (hother u64 hne), ?_⟩
  cases ht : record StuckTable.step recordReports (s, since) (.track w gen slot now) with
  | none => trivial
  | some p =>
      refine ⟨trivial, ?_⟩
      cases hq : record StuckTable.step recordReports p (.act w found) <;> trivial

theorem storm_run {n : ℕ} (hn : n < ghostPurgeThreshold) :
    ∃ s since, run (record StuckTable.step recordReports) (.init, fun _ => 0) (storm n) =
        some (s, since) ∧
      Meets (record StuckTable.step recordReports) Alone (.init, fun _ => 0) (storm n) ∧
      (∀ w, s.pc w = .idle) ∧ ((s.gStuck 0).report (epKey 1 5)).count = n + 1 ∧
      since (epKey 1 5) = n ∧ ∀ u64 ≠ epKey 1 5, since u64 = 0 := by
  induction n with
  | zero => exact ⟨_, _, rfl, trivial, fun _ => rfl, rfl, rfl, fun _ _ => rfl⟩
  | succ n ih =>
      obtain ⟨s, since, hrun, hmeets, hidle, hcount, hown, hother⟩ := ih (Nat.lt_of_succ_lt hn)
      have hfew : ghostStuckShouldPurge (n + 1) = false := by
        rw [← Bool.not_eq_true, ghostStuckShouldPurge_iff, Nat.mod_eq_of_lt hn]
        exact fun h => Nat.succ_ne_zero n h.2
      obtain ⟨t, ht, hidle, hused, howner, hcounted⟩ :=
        report_once since hidle (by decide) hcount hfew
      rw [storm_succ]
      refine ⟨t, _, run_append_of_eq hrun ht, hmeets.append hrun (meets_report hother), hidle,
        ?_, ?_, fun u64 hne => ?_⟩
      · rw [StuckEnt.report_count hused howner, hcounted]
      · rw [Function.update_self, hown]
      · rw [Function.update_of_ne hne, hother u64 hne]

/-- The purge that comes after the threshold, and a report of another identifier. -/
def purgeAndNext : List TrackEvent :=
  [.act 0 true, .reset 0, .track 1 1 6 7]

theorem purgeAndNext_run {s : StuckTable} {since : ReportLog} {doLog : Bool} {count : ℕ}
    (hpc : s.pc 0 = .decided (epKey 1 5) count doLog true) (hidle : s.pc 1 = .idle)
    (hother : ∀ u64 ≠ epKey 1 5, since u64 = 0) :
    ∃ t, run (record StuckTable.step recordReports) (s, since) purgeAndNext =
        some (t, Function.update (fun _ => 0) (epKey 1 6) 1) ∧
      Meets (record StuckTable.step recordReports) Alone (s, since) purgeAndNext := by
  have hsettled : Function.update since (epKey 1 5) 0 = fun _ => 0 := by
    funext u64
    rw [Function.update_apply]
    split
    case isTrue => rfl
    case isFalse hne => exact hother u64 hne
  have hact : record StuckTable.step recordReports (s, since) (.act 0 true) =
      some (s.act 0 (epKey 1 5) count doLog true true, fun _ => 0) := by
    refine record_eq_some.mpr ⟨?_, ?_⟩
    · simp only [StuckTable.step, hpc]
    · simp only [recordReports, hpc, hsettled]
  have hpcs : (s.act 0 (epKey 1 5) count doLog true true).pc =
      Function.update s.pc 0 (.reset (stuckIndex (epKey 1 5))) := by
    cases doLog <;> rfl
  generalize s.act 0 (epKey 1 5) count doLog true true = t at hact hpcs
  have hreset : record StuckTable.step recordReports (t, fun _ => 0) (.reset 0) =
      some ((t.setEnt (stuckIndex (epKey 1 5))
        { t.gStuck (stuckIndex (epKey 1 5)) with count := 0 }).setPc 0 .idle, fun _ => 0) := by
    refine record_eq_some.mpr ⟨?_, rfl⟩
    simp only [StuckTable.step, hpcs, Function.update_self]
  have hidle : ((t.setEnt (stuckIndex (epKey 1 5))
      { t.gStuck (stuckIndex (epKey 1 5)) with count := 0 }).setPc 0 .idle).pc 1 = .idle := by
    simp only [StuckTable.setPc, StuckTable.setEnt, hpcs, Function.update_idem]
    rw [Function.update_of_ne (by decide), hidle]
  generalize (t.setEnt (stuckIndex (epKey 1 5))
    { t.gStuck (stuckIndex (epKey 1 5)) with count := 0 }).setPc 0 .idle = u at hreset hidle
  have htrack : record StuckTable.step recordReports (u, fun _ => 0) (.track 1 1 6 7) =
      some (u.track 1 (epKey 1 6) 7, Function.update (fun _ => 0) (epKey 1 6) 1) := by
    refine record_eq_some.mpr ⟨?_, rfl⟩
    simp only [StuckTable.step, hidle]
    rfl
  refine ⟨u.track 1 (epKey 1 6) 7, ?_, ?_⟩
  · rw [purgeAndNext, run_cons_eq hact, run_cons_eq hreset, run_cons_eq htrack, run_nil]
  · exact Meets.cons trivial hact (Meets.cons (fun _ => Or.inl rfl) hreset
      (Meets.cons (fun _ _ => Or.inl rfl) htrack trivial))

/-- One identifier is reported up to the threshold, is purged, and another one is reported. -/
theorem ghost_storms_cut_threshold :
    ∃ s t since next,
      run (record StuckTable.step recordReports) (.init, fun _ => 0)
        (storm 4999 ++ [.track 0 1 5 7]) = some (s, since) ∧
      since (epKey 1 5) = ghostPurgeThreshold ∧ StormsCut s since ∧
      run (record StuckTable.step recordReports) (.init, fun _ => 0)
        (storm 4999 ++ [.track 0 1 5 7] ++ purgeAndNext) = some (t, next) ∧
      next (epKey 1 5) = 0 ∧ next (epKey 1 6) = 1 ∧ StormsCut t next := by
  obtain ⟨s, since, hrun, hmeets, hidle, hcount, hown, hother⟩ :=
    storm_run (by decide : 4999 < ghostPurgeThreshold)
  have htrack : record StuckTable.step recordReports (s, since) (.track 0 1 5 7) =
      some (s.track 0 (epKey 1 5) 7, Function.update since (epKey 1 5) 5000) := by
    refine record_eq_some.mpr ⟨?_, ?_⟩
    · simp only [StuckTable.step, hidle]
      rfl
    · simp only [recordReports, hown]
  have hother' : ∀ u64 ≠ epKey 1 5, Function.update since (epKey 1 5) 5000 u64 = 0 := by
    intro u64 hne
    rw [Function.update_of_ne hne, hother u64 hne]
  obtain ⟨doLog, hpcs⟩ := s.track_pc 0 (epKey 1 5) 7
  rw [stuckIndex_epKey 1 (by decide), hcount] at hpcs
  obtain ⟨t, hnext, hmeets'⟩ := purgeAndNext_run
    ((congrFun hpcs 0).trans (Function.update_self ..))
    ((congrFun hpcs 1).trans ((Function.update_of_ne (by decide) ..).trans (hidle 1))) hother'
  have hfull := run_append_of_eq hrun (run_cons_eq htrack [])
  have halone : Alone (s, since) (.track 0 1 5 7) := fun u64 hne => Or.inl (hother u64 hne)
  have hreport : Meets (record StuckTable.step recordReports) Alone (s, since)
      [.track 0 1 5 7] := Meets.cons halone htrack trivial
  have hmeets := hmeets.append hrun hreport
  have hend := run_append_of_eq hfull hnext
  refine ⟨_, t, _, _, hfull, Function.update_self .., ghost_storms_cut hfull hmeets, hend, ?_,
    Function.update_self .., ghost_storms_cut hend (hmeets.append hfull hmeets')⟩
  rw [Function.update_of_ne (by decide)]

def takingTurns (n : ℕ) : List TrackEvent :=
  (List.replicate n [.track 0 1 5 7, .act 0 false, .track 0 1 6 7, .act 0 false]).flatten

/-- However long two ghosts are reported in turn, neither is purged. -/
theorem takingTurns_run (n : ℕ) :
    ∃ s since, run (record StuckTable.step recordReports) (.init, fun _ => 0) (takingTurns n) =
        some (s, since) ∧ (∀ w, s.pc w = .idle) ∧ since (epKey 1 5) = n ∧
      since (epKey 1 6) = n ∧ ((s.gStuck 0).used = false ∨ (s.gStuck 0).u64 ≠ epKey 1 5) := by
  induction n with
  | zero => exact ⟨_, _, rfl, fun _ => rfl, rfl, rfl, Or.inl rfl⟩
  | succ n ih =>
      obtain ⟨s, since, hrun, hidle, hfive, hsix, hother⟩ := ih
      have hne : epKey 1 6 ≠ epKey 1 5 := by decide
      obtain ⟨t, ht, hidle, -, howner, -⟩ := report_once since hidle (by decide)
        (StuckEnt.report_other hother) rfl
      obtain ⟨u, hu, hidle, -, howner, -⟩ := @report_once t
        (Function.update since (epKey 1 5) (since (epKey 1 5) + 1)) 1 6 1
        hidle (by decide) (StuckEnt.report_other (Or.inr (by rw [howner]; exact hne.symm))) rfl
      have hround := run_append_of_eq hrun (run_append_of_eq ht hu)
      have hturns : takingTurns (n + 1) = takingTurns n ++
          ([.track 0 1 5 7, .act 0 false] ++ [.track 0 1 6 7, .act 0 false]) := by
        simp [takingTurns, List.replicate_succ']
      rw [← hturns] at hround
      refine ⟨u, _, hround, hidle, ?_, ?_, Or.inr (by rw [howner]; exact hne)⟩
      · rw [Function.update_of_ne hne.symm, Function.update_self, hfive]
      · rw [Function.update_self, Function.update_of_ne hne, hsix]

/-- Each of the two has been reported `GHOST_PURGE_THRESHOLD` times, and no purge is under way. -/
theorem storms_not_cut :
    ∃ s since, run (record StuckTable.step recordReports) (.init, fun _ => 0)
        (takingTurns ghostPurgeThreshold) = some (s, since) ∧
      since (epKey 1 5) = ghostPurgeThreshold ∧ ¬s.Purging (epKey 1 5) ∧
      ¬StormsCut s since := by
  obtain ⟨s, since, hrun, hidle, hfive, -⟩ := takingTurns_run ghostPurgeThreshold
  have hno : ¬s.Purging (epKey 1 5) := by
    rintro ⟨w, count, doLog, hpc⟩
    rw [hidle w] at hpc
    cases hpc
  exact ⟨s, since, hrun, hfive, hno, fun hcut => hno (hcut.cut _ (Nat.le_of_eq hfive.symm))⟩

end FiveGProxy
