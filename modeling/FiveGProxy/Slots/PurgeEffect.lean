import FiveGProxy.Slots.PurgeSafety

/-!
# The effect of an undisturbed purge

A call of `stamp_purge` during which no other thread takes a step removes the registrations of the
noted numbers that `fstat` confirms and, when it claims a scan, those of every number it reads whose
file has a noted inode. The kernel removes by the number, so each of them goes only when the number
still stands for the registered file. A registration the number of which has been closed stays,
whatever other number of its file the scan finds.
-/

namespace FiveGProxy

open Steps

/-- The removals of a call that reads the numbers `listed` from `/proc/self/fd`. -/
def StampEnt.allDels (e : StampEnt) (t : FdTable) (listed : List ℤ) : List (Fin workerCount × ℤ) :=
  e.quickDels (t.stillHas e.clientFd e.cIno) (t.stillHas e.targetFd e.tIno) ++
    listed.flatMap (e.scanDels t)

def StampEnt.Unhooks (e : StampEnt) (t : FdTable) (listed : List ℤ) (r : Interest ℤ) : Prop :=
  t.files r.fd = some r.file ∧
    (r.fd = e.clientFd ∧ t.stillHas e.clientFd e.cIno = true ∨
      r.fd = e.targetFd ∧ t.stillHas e.targetFd e.tIno = true ∨
      r.fd ∈ listed ∧ e.hasIno (t.ident r.file) = true)

instance (e : StampEnt) (t : FdTable) (listed : List ℤ) (r : Interest ℤ) :
    Decidable (e.Unhooks t listed r) := inferInstanceAs (Decidable (_ ∧ _))

@[simp] theorem FdTable.stillHas_epollDelAll (t : FdTable) (dels : List (Fin workerCount × ℤ))
    (fd : ℤ) (ino : BitVec 64) : stillHas (t.epollDelAll dels) fd ino = t.stillHas fd ino := by
  rw [stillHas, Descriptors.epollDelAll_fstat]
  rfl

@[simp] theorem StampEnt.scanDels_epollDelAll (e : StampEnt) (t : FdTable)
    (dels : List (Fin workerCount × ℤ)) (n : ℤ) :
    e.scanDels (t.epollDelAll dels) n = e.scanDels t n := by
  rw [scanDels, Descriptors.epollDelAll_fstat]
  rfl

theorem StampEnt.mem_allDels {e : StampEnt} {t : FdTable} {listed : List ℤ} {w : Fin workerCount}
    {r : Interest ℤ} :
    (w, r.fd) ∈ e.allDels t listed ∧ t.files r.fd = some r.file ↔ e.Unhooks t listed r := by
  rw [allDels, List.mem_append, mem_quickDels, List.mem_flatMap, Unhooks, and_comm]
  apply and_congr_right
  intro hfile
  have hscan : (∃ n ∈ listed, (w, r.fd) ∈ e.scanDels t n) ↔
      r.fd ∈ listed ∧ e.hasIno (t.ident r.file) = true := by
    constructor
    · rintro ⟨n, hn, hmem⟩
      obtain ⟨rfl, d, hd, hhas⟩ := mem_scanDels.mp hmem
      obtain rfl := Option.some.inj (hfile.symm.trans hd)
      exact ⟨hn, hhas⟩
    · rintro ⟨hn, hhas⟩
      exact ⟨r.fd, hn, mem_scanDels.mpr ⟨rfl, r.file, hfile, hhas⟩⟩
  rw [hscan, or_assoc]
  exact or_congr and_comm (or_congr and_comm Iff.rfl)

/-- A confirmed number of the record has a noted inode, so the quick path removes nothing that a
scan of all numbers would not. -/
theorem StampEnt.unhooks_iff_of_all {e : StampEnt} {t : FdTable} {listed : List ℤ}
    (hall : ∀ n ∈ t.numbers, n ∈ listed) {r : Interest ℤ} :
    e.Unhooks t listed r ↔ t.files r.fd = some r.file ∧ e.hasIno (t.ident r.file) = true := by
  apply and_congr_right
  intro hfile
  have hlisted : r.fd ∈ listed := hall r.fd ((t.mem_numbers r.fd).mpr (by rw [hfile]; rfl))
  constructor
  · rintro (⟨hfd, hstill⟩ | ⟨hfd, hstill⟩ | ⟨-, hhas⟩)
    · obtain ⟨d, hd, hhas⟩ := FdTable.Stands.of_client hstill
      rw [← hfd, hfile] at hd
      exact Option.some.inj hd ▸ hhas
    · obtain ⟨d, hd, hhas⟩ := FdTable.Stands.of_target hstill
      rw [← hfd, hfile] at hd
      exact Option.some.inj hd ▸ hhas
    · exact hhas
  · intro hhas
    exact Or.inr (Or.inr ⟨hlisted, hhas⟩)

/-! ### The call -/

/-- Where a call that began in `s` and found `e` is, when it has read the numbers `listed` and made the
removals `dels`. -/
def InCall (s : PurgeState) (e : StampEnt) (listed : List ℤ) (dels : List (Fin workerCount × ℤ)) :
    PurgePc → Prop
  | .statClient e' => e' = e ∧ listed = [] ∧ dels = []
  | .statTarget e' cMatch =>
      e' = e ∧ listed = [] ∧ dels = [] ∧ cMatch = s.fds.stillHas e.clientFd e.cIno
  | .quick e' rest => e' = e ∧ listed = [] ∧ dels ++ rest = e.allDels s.fds []
  | .claim e' _ _ => e' = e ∧ listed = [] ∧ dels = e.allDels s.fds []
  | .scan e' rest => e' = e ∧ dels ++ rest = e.allDels s.fds listed
  | .idle => dels = e.allDels s.fds listed

structure PurgeCall (s : PurgeState) (v : Fin workerCount) (e : StampEnt) (listed : List ℤ)
    (t : PurgeState) : Prop where
  inCall : ∃ dels, t.fds = s.fds.epollDelAll dels ∧ InCall s e listed dels (t.pc v)

namespace PurgeCall

variable {s t u : PurgeState} {v : Fin workerCount} {e : StampEnt} {listed : List ℤ}

theorem goOn {pc : PurgePc} {dels : List (Fin workerCount × ℤ)} (hfds : t.fds = s.fds.epollDelAll dels)
    (hpc : InCall s e listed dels pc) : PurgeCall s v e listed (t.setPc v pc) where
  inCall := by
    refine ⟨dels, hfds, ?_⟩
    rw [PurgeState.setPc]
    simp only [Function.update_self]
    exact hpc

theorem unhook {pc : PurgePc} {dels : List (Fin workerCount × ℤ)} {p : Fin workerCount × ℤ}
    (hfds : t.fds = s.fds.epollDelAll dels) (hpc : InCall s e listed (dels ++ [p]) pc) :
    PurgeCall s v e listed ((t.setFds (t.fds.epollDel p.1 p.2)).setPc v pc) :=
  goOn (t := t.setFds _) (by rw [Descriptors.epollDelAll_concat, ← hfds]; rfl) hpc

theorem step (h : PurgeCall s v e listed t) {ev : PurgeEvent} (hown : ev.purger = some v)
    (hu : PurgeState.step t ev = some u) : PurgeCall s v e (listed ++ ev.number.toList) u := by
  obtain ⟨dels, hfds, hcall⟩ := h.inCall
  cases ev with
  | statClient v' =>
      obtain rfl := Option.some.inj hown
      simp only [PurgeState.step] at hu
      split at hu
      case h_1 e' hpc =>
        obtain rfl := Option.some.inj hu
        rw [hpc] at hcall
        obtain ⟨rfl, rfl, rfl⟩ := hcall
        exact goOn hfds ⟨rfl, rfl, rfl, by rw [hfds, FdTable.stillHas_epollDelAll]⟩
      case h_2 => cases hu
  | statTarget v' =>
      obtain rfl := Option.some.inj hown
      simp only [PurgeState.step] at hu
      split at hu
      case h_1 e' cMatch hpc =>
        obtain rfl := Option.some.inj hu
        rw [hpc] at hcall
        obtain ⟨rfl, rfl, rfl, rfl⟩ := hcall
        refine goOn hfds ⟨rfl, rfl, ?_⟩
        rw [hfds, FdTable.stillHas_epollDelAll]
        exact (List.append_nil _).symm
      case h_2 => cases hu
  | del v' =>
      obtain rfl := Option.some.inj hown
      simp only [PurgeState.step] at hu
      have hlisted : listed ++ (PurgeEvent.del v').number.toList = listed := List.append_nil listed
      rw [hlisted]
      split at hu
      case h_1 e' p rest hpc =>
        obtain rfl := Option.some.inj hu
        rw [hpc] at hcall
        obtain ⟨rfl, rfl, hdels⟩ := hcall
        exact unhook hfds ⟨rfl, rfl, by rw [← hdels, List.append_assoc]; rfl⟩
      case h_2 e' p rest hpc =>
        obtain rfl := Option.some.inj hu
        rw [hpc] at hcall
        obtain ⟨rfl, hdels⟩ := hcall
        exact unhook hfds ⟨rfl, by rw [← hdels, List.append_assoc]; rfl⟩
      case h_3 => cases hu
  | clock v' nowMs =>
      obtain rfl := Option.some.inj hown
      simp only [PurgeState.step] at hu
      split at hu
      case h_1 e' hpc =>
        rw [hpc] at hcall
        obtain ⟨rfl, rfl, hdels⟩ := hcall
        rw [List.append_nil] at hdels
        split at hu
        · obtain rfl := Option.some.inj hu
          exact goOn hfds hdels
        · obtain rfl := Option.some.inj hu
          exact goOn hfds ⟨rfl, rfl, hdels⟩
      case h_2 => cases hu
  | claim v' opendir =>
      obtain rfl := Option.some.inj hown
      simp only [PurgeState.step] at hu
      split at hu
      case h_1 e' prevMs nowMs hpc =>
        rw [hpc] at hcall
        obtain ⟨rfl, rfl, hdels⟩ := hcall
        split at hu
        · obtain rfl := Option.some.inj hu
          cases opendir with
          | true =>
              refine goOn (t := { t with gLastScanMs := nowMs }) hfds ⟨rfl, ?_⟩
              rw [List.append_nil]
              exact hdels
          | false => exact goOn (t := { t with gLastScanMs := nowMs }) hfds hdels
        · obtain rfl := Option.some.inj hu
          exact goOn hfds hdels
      case h_2 => cases hu
  | readdir v' n =>
      obtain rfl := Option.some.inj hown
      simp only [PurgeState.step] at hu
      split at hu
      case h_1 e' hpc =>
        obtain rfl := Option.some.inj hu
        rw [hpc] at hcall
        obtain ⟨rfl, hdels⟩ := hcall
        rw [List.append_nil] at hdels
        refine goOn hfds ⟨rfl, ?_⟩
        rw [hdels, hfds, StampEnt.scanDels_epollDelAll, StampEnt.allDels, StampEnt.allDels,
          List.flatMap_append, List.append_assoc]
        congr 2
        exact (List.append_nil _).symm
      case h_2 => cases hu
  | closedir v' =>
      obtain rfl := Option.some.inj hown
      simp only [PurgeState.step] at hu
      split at hu
      case h_1 e' hpc =>
        obtain rfl := Option.some.inj hu
        rw [hpc] at hcall
        obtain ⟨rfl, hdels⟩ := hcall
        rw [List.append_nil] at hdels
        have hlisted : listed ++ (PurgeEvent.closedir v').number.toList = listed :=
          List.append_nil listed
        rw [hlisted]
        exact goOn hfds hdels
      case h_2 => cases hu
  | openFd | dupFd | closeFd | epollAdd | epollDel | recordClient | recordTarget | recordStore |
    purge => cases hown

theorem run (h : PurgeCall s v e listed t) {evs : List PurgeEvent}
    (hown : ∀ ev ∈ evs, ev.purger = some v) (hu : Steps.run PurgeState.step t evs = some u) :
    PurgeCall s v e (listed ++ evs.filterMap PurgeEvent.number) u := by
  induction evs generalizing listed t with
  | nil =>
      cases hu
      rw [List.filterMap_nil, List.append_nil]
      exact h
  | cons ev evs ih =>
      obtain ⟨t', ht', hrest⟩ := run_cons_eq_some.mp hu
      have hnext := h.step (hown ev List.mem_cons_self) ht'
      have hend := ih hnext (fun ev' hev' => hown ev' (List.mem_cons_of_mem ev hev')) hrest
      have hnumbers : (ev :: evs).filterMap PurgeEvent.number =
          ev.number.toList ++ evs.filterMap PurgeEvent.number := by
        rw [List.filterMap_cons]
        cases ev.number <;> rfl
      rw [hnumbers, ← List.append_assoc]
      exact hend

end PurgeCall

/-- The exact effect of a call that finds the stamp and that no other thread disturbs, however the
clock, the exchange and `opendir` turn out: the registrations that `Unhooks` names are gone and the
others stay in their order. When all open numbers are read, those are the ones whose number still
stands for the registered file and whose file has a noted inode. -/
theorem stamp_purge_effect {s t : PurgeState} {v : Fin workerCount} {u64 : BitVec 64} {e : StampEnt}
    (hpc : s.pc v = .idle) (hfound : s.lookup u64 = some e) {evs : List PurgeEvent}
    (hown : ∀ ev ∈ evs, ev.purger = some v)
    (hrun : run PurgeState.step s (.purge v u64 :: evs) = some t) (hend : t.pc v = .idle)
    (w : Fin workerCount) :
    t.fds.interest w = (s.fds.interest w).filter (fun r =>
      ! decide (e.Unhooks s.fds (evs.filterMap PurgeEvent.number) r)) ∧
    ((∀ n ∈ s.fds.numbers, n ∈ evs.filterMap PurgeEvent.number) →
      t.fds.interest w = (s.fds.interest w).filter fun r =>
        ! decide (s.fds.files r.fd = some r.file ∧ e.hasIno (s.fds.ident r.file) = true)) := by
  obtain ⟨s', hs', hrest⟩ := run_cons_eq_some.mp hrun
  have hcalled : s' = s.setPc v (.statClient e) := by
    simp only [PurgeState.step, hpc, hfound] at hs'
    exact (Option.some.inj hs').symm
  have hbegin : PurgeCall s v e [] s' := by
    rw [hcalled]
    have hfds : s.fds = s.fds.epollDelAll [] := rfl
    exact PurgeCall.goOn hfds ⟨rfl, rfl, rfl⟩
  obtain ⟨dels, hfds, hdone⟩ := (hbegin.run hown hrest).inCall
  rw [hend, List.nil_append] at hdone
  have hinterest : t.fds.interest w = (s.fds.interest w).filter fun r =>
      ! decide (e.Unhooks s.fds (evs.filterMap PurgeEvent.number) r) := by
    rw [hfds, Descriptors.epollDelAll_interest]
    apply List.filter_congr
    intro r _
    rw [hdone]
    exact congrArg _ (decide_eq_decide.mpr StampEnt.mem_allDels)
  refine ⟨hinterest, fun hall => ?_⟩
  rw [hinterest]
  apply List.filter_congr
  intro r _
  exact congrArg _ (decide_eq_decide.mpr (StampEnt.unhooks_iff_of_all hall))

/-- A connection the client socket of which has a second number; the registered one is closed. -/
def sharedClient : List PurgeEvent :=
  [.openFd 5 77, .dupFd 5 6, .epollAdd 0 5, .recordClient 0 (1#64 <<< 32) 5 (-1) 0, .recordTarget 0,
    .recordStore 0, .closeFd 5]

def sharedClientPurge : List PurgeEvent :=
  [.statClient 1, .statTarget 1, .clock 1 300, .claim 1 true, .readdir 1 6, .del 1, .del 1, .del 1,
    .del 1, .closedir 1]

/-- The scan finds the socket under its second number, and the registration under the first stays. -/
theorem stamp_purge_effect_sharedClient :
    ∃ s t e, run PurgeState.step .init sharedClient = some s ∧
      s.lookup (1#64 <<< 32) = some e ∧ e.hasIno (s.fds.ident 0) = true ∧
      run PurgeState.step s (.purge 1 (1#64 <<< 32) :: sharedClientPurge) = some t ∧
      (∀ n ∈ s.fds.numbers, n ∈ sharedClientPurge.filterMap PurgeEvent.number) ∧
      t.fds.interest 0 = (s.fds.interest 0).filter (fun r =>
        ! decide (s.fds.files r.fd = some r.file ∧ e.hasIno (s.fds.ident r.file) = true)) ∧
      ⟨5, 0⟩ ∈ t.fds.interest 0 := by
  obtain ⟨s, hs, hpc, hfound, hall, hpurge⟩ := exists_run_of_any (by decide +kernel :
    (run PurgeState.step .init sharedClient).any (fun s => decide (s.pc 1 = .idle ∧
      (s.lookup (1#64 <<< 32)).any (fun e => e.hasIno (s.fds.ident 0)) = true ∧
      (∀ n ∈ s.fds.numbers, n ∈ sharedClientPurge.filterMap PurgeEvent.number) ∧
      (run PurgeState.step s (.purge 1 (1#64 <<< 32) :: sharedClientPurge)).any (fun t =>
        decide (t.pc 1 = .idle ∧ ⟨5, 0⟩ ∈ t.fds.interest 0)) = true)) = true)
  obtain ⟨e, he, hhas⟩ := (Option.any_eq_true _ _).mp hfound
  obtain ⟨t, ht, hend, hstays⟩ := exists_run_of_any hpurge
  have hown : ∀ ev ∈ sharedClientPurge, ev.purger = some 1 := by decide
  exact ⟨s, t, e, hs, he, hhas, ht, hall,
    (stamp_purge_effect hpc he hown ht hend 0).2 hall, hstays⟩

end FiveGProxy
