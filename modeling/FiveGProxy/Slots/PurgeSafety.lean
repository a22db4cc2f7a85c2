import FiveGProxy.Slots.StampPurge

/-!
# What a purge removes

A purge checks a number and removes it in two steps. `PurgeInv` says what the check is worth until
the removal: a number that has not been closed since then still stands for a file that the noted
connection was registered with. So a purge takes no other connection out of an epoll instance unless
a number was closed under its hands. What it finds under an identifier is one of the last
`STAMP_RING_SIZE` records, and the scans of `/proc/self/fd` are `scanIntervalMs` apart.
-/

namespace FiveGProxy

open Steps

/-! ### Notes -/

/-- The inode was noted from the description, unless `fstat` failed. -/
def Noted (t : FdTable) (file : Option ℕ) (ino : BitVec 64) : Prop :=
  ino ≠ 0 → ∃ d, file = some d ∧ d < t.opened ∧ t.ident d = ino

theorem Noted.extends {t t' : FdTable} {file : Option ℕ} {ino : BitVec 64} (h : Noted t file ino)
    (hext : t.Extends t') : Noted t' file ino := by
  intro hino
  obtain ⟨d, hfile, hlt, hident⟩ := h hino
  exact ⟨d, hfile, lt_of_lt_of_le hlt hext.opened_le, (hext.ident_eq d hlt).trans hident⟩

theorem Noted.inoOf (t : FdTable) (fd : ℤ) : Noted t (t.files fd) (t.inoOf fd) := by
  intro hino
  rw [FdTable.inoOf] at hino ⊢
  split at hino
  case isTrue hfd =>
    rw [if_pos hfd]
    cases hstat : t.fstat fd with
    | none =>
        rw [hstat] at hino
        exact absurd rfl hino
    | some id =>
        obtain ⟨d, hd, hident⟩ := Descriptors.fstat_eq_some.mp hstat
        exact ⟨d, hd, t.file_lt fd d hd, hident⟩
  case isFalse => exact absurd rfl hino

/-- Both inodes of the record were noted from the descriptions its numbers stood for. -/
structure Stamp.Shown (st : Stamp) (t : FdTable) : Prop where
  client : Noted t st.client st.ent.cIno
  target : Noted t st.target st.ent.tIno

theorem Stamp.Shown.extends {st : Stamp} {t t' : FdTable} (h : st.Shown t) (hext : t.Extends t') :
    st.Shown t' := ⟨h.client.extends hext, h.target.extends hext⟩

theorem StampEnt.hasIno_iff {e : StampEnt} {id : BitVec 64} :
    e.hasIno id = true ↔ e.cIno ≠ 0 ∧ id = e.cIno ∨ e.tIno ≠ 0 ∧ id = e.tIno := by
  simp [StampEnt.hasIno]

theorem StampEnt.not_hasIno_blank (id : BitVec 64) : StampEnt.blank.hasIno id = false := by
  simp [StampEnt.hasIno, StampEnt.blank]

/-- A file with a noted inode has the inode of a file of the record. -/
theorem Stamp.Shown.hasIno {st : Stamp} {t : FdTable} {id : BitVec 64} (h : st.Shown t)
    (hid : st.ent.hasIno id = true) :
    ∃ d, (st.client = some d ∨ st.target = some d) ∧ t.ident d = id := by
  rcases StampEnt.hasIno_iff.mp hid with ⟨hne, rfl⟩ | ⟨hne, rfl⟩
  · obtain ⟨d, hd, -, hident⟩ := h.client hne
    exact ⟨d, Or.inl hd, hident⟩
  · obtain ⟨d, hd, -, hident⟩ := h.target hne
    exact ⟨d, Or.inr hd, hident⟩

namespace FdTable

def Stands (t : FdTable) (n : ℤ) (e : StampEnt) : Prop :=
  ∃ d, t.files n = some d ∧ e.hasIno (t.ident d) = true

theorem stillHas_iff {t : FdTable} {fd : ℤ} {ino : BitVec 64} :
    t.stillHas fd ino = true ↔ 0 ≤ fd ∧ ino ≠ 0 ∧ t.fstat fd = some ino := by
  simp [stillHas]

theorem Stands.of_client {t : FdTable} {e : StampEnt} (h : t.stillHas e.clientFd e.cIno = true) :
    t.Stands e.clientFd e := by
  obtain ⟨-, hne, hstat⟩ := stillHas_iff.mp h
  obtain ⟨d, hd, hident⟩ := Descriptors.fstat_eq_some.mp hstat
  exact ⟨d, hd, StampEnt.hasIno_iff.mpr (Or.inl ⟨hne, hident⟩)⟩

theorem Stands.of_target {t : FdTable} {e : StampEnt} (h : t.stillHas e.targetFd e.tIno = true) :
    t.Stands e.targetFd e := by
  obtain ⟨-, hne, hstat⟩ := stillHas_iff.mp h
  obtain ⟨d, hd, hident⟩ := Descriptors.fstat_eq_some.mp hstat
  exact ⟨d, hd, StampEnt.hasIno_iff.mpr (Or.inr ⟨hne, hident⟩)⟩

end FdTable

namespace StampEnt

theorem mem_quickDels {e : StampEnt} {cMatch tMatch : Bool} {p : Fin workerCount × ℤ} :
    p ∈ e.quickDels cMatch tMatch ↔
      cMatch = true ∧ p.2 = e.clientFd ∨ tMatch = true ∧ p.2 = e.targetFd := by
  obtain ⟨w, n⟩ := p
  cases cMatch <;> cases tMatch <;> simp [quickDels, exists_or]

theorem mem_scanDels {e : StampEnt} {t : FdTable} {n : ℤ} {p : Fin workerCount × ℤ} :
    p ∈ e.scanDels t n ↔ p.2 = n ∧ t.Stands n e := by
  obtain ⟨w, m⟩ := p
  have hstands : (t.fstat n).any e.hasIno = true ↔ t.Stands n e := by
    rw [Option.any_eq_true, FdTable.Stands]
    constructor
    · rintro ⟨id, hid, hhas⟩
      obtain ⟨d, hd, rfl⟩ := Descriptors.fstat_eq_some.mp hid
      exact ⟨d, hd, hhas⟩
    · rintro ⟨d, hd, hhas⟩
      exact ⟨t.ident d, Descriptors.fstat_eq_some.mpr ⟨d, hd, rfl⟩, hhas⟩
  rw [scanDels]
  split
  case isTrue h => simp [hstands.mp h, eq_comm]
  case isFalse h =>
    have hno : ¬ t.Stands n e := fun hst => h (hstands.mpr hst)
    simp [hno]

end StampEnt

/-! ### The ring -/

theorem stampPlace_succ (pos : BitVec 32) :
    stampPlace (pos + 1) = OverwriteRing.succPlace (stampPlace pos) := by
  apply Fin.ext
  change (pos + 1 &&& 4095#32).toNat = ((pos &&& 4095#32).toNat + 1) % stampRingSize
  have hmask : ∀ p : BitVec 32, (p &&& 4095#32).toNat = p.toNat % 4096 := by
    intro p
    rw [BitVec.toNat_and]
    exact Nat.and_two_pow_sub_one_eq_mod p.toNat 12
  rw [hmask, hmask, BitVec.toNat_add, Nat.mod_mod_of_dvd _ (by decide : 4096 ∣ 2 ^ 32)]
  exact (Nat.mod_add_mod pos.toNat 4096 1).symm

/-- The section under the lock is a record of the ring, also when the position wraps round. -/
theorem PurgeState.store_ring (s : PurgeState) (e : StampEnt) :
    (s.store e).ring = s.ring.record e := by
  rw [ring, OverwriteRing.record]
  exact congrArg _ (stampPlace_succ s.gStampRingPos)

/-! ### The invariant -/

namespace PurgePc

def ent : PurgePc → Option StampEnt
  | .idle => none
  | .statClient e | .statTarget e _ | .quick e _ | .claim e _ _ | .scan e _ => some e

def pending : PurgePc → List ℤ
  | .idle | .statClient _ | .claim .. => []
  | .statTarget e cMatch => if cMatch then [e.clientFd] else []
  | .quick _ dels | .scan _ dels => dels.map Prod.snd

end PurgePc

/-- What is looked up is one of the records that were the last at the call, or a place that has never
been written. -/
def Looked (t : FdTable) (called : BitVec 64 × List Stamp) (e : StampEnt) : Prop :=
  e = .blank ∨ ∃ st ∈ called.2, st.ent = e ∧ e.u64 = called.1 ∧ st.Shown t

theorem Looked.extends {t t' : FdTable} {called : BitVec 64 × List Stamp} {e : StampEnt}
    (h : Looked t called e) (hext : t.Extends t') : Looked t' called e := by
  rcases h with hblank | ⟨st, hst, hent, hu64, hshown⟩
  · exact Or.inl hblank
  · exact Or.inr ⟨st, hst, hent, hu64, hshown.extends hext⟩

structure PurgeInv (s : PurgeState) (log : PurgeLog) : Prop where
  ring : s.ring.Holds .blank (log.stamps.map Stamp.ent)
  shown : ∀ st ∈ log.stamps, st.Shown s.fds
  client : ∀ i e, s.recording i = .statTarget e → Noted s.fds (log.taking i).1 e.cIno
  both : ∀ i e, s.recording i = .store e →
    Noted s.fds (log.taking i).1 e.cIno ∧ Noted s.fds (log.taking i).2 e.tIno
  looked : ∀ v e, (s.pc v).ent = some e → Looked s.fds (log.called v) e
  checked : ∀ v e, (s.pc v).ent = some e → ∀ n ∈ (s.pc v).pending,
    log.closed v n = false → s.fds.Stands n e

namespace PurgeInv

variable {s t : PurgeState} {log : PurgeLog}

theorem init : PurgeInv .init .empty where
  ring := OverwriteRing.Holds.nil _ rfl
  shown := by
    rintro st ⟨⟩
  client := by
    rintro i e ⟨⟩
  both := by
    rintro i e ⟨⟩
  looked := by
    rintro v e ⟨⟩
  checked := by
    rintro v e ⟨⟩

/-- The kernel changes the table: a number that is not marked as closed keeps its file. -/
theorem setFds (h : PurgeInv s log) {fds : FdTable} {closed : Fin workerCount → ℤ → Bool}
    (hext : s.fds.Extends fds)
    (hfiles : ∀ v n, closed v n = false → log.closed v n = false ∧
      ∀ d, s.fds.files n = some d → fds.files n = some d) :
    PurgeInv (s.setFds fds) { log with closed := closed } where
  ring := h.ring
  shown st hst := (h.shown st hst).extends hext
  client i e hi := (h.client i e hi).extends hext
  both i e hi := ⟨(h.both i e hi).1.extends hext, (h.both i e hi).2.extends hext⟩
  looked v e he := (h.looked v e he).extends hext
  checked := by
    intro v e he n hn hclosed
    obtain ⟨hopen, hkept⟩ := hfiles v n hclosed
    obtain ⟨d, hd, hhas⟩ := h.checked v e he n hn hopen
    refine ⟨d, hkept d hd, ?_⟩
    change e.hasIno (fds.ident d) = true
    rw [hext.ident_eq d (s.fds.file_lt n d hd)]
    exact hhas

theorem setFds_of_files (h : PurgeInv s log) {fds : FdTable} (hext : s.fds.Extends fds)
    (hfiles : ∀ n d, s.fds.files n = some d → fds.files n = some d) : PurgeInv (s.setFds fds) log :=
  h.setFds hext fun _ n hclosed => ⟨hclosed, hfiles n⟩

/-- A worker goes on in `stamp_purge`; it begins to check anew when `closed` is reset. -/
theorem setPc (h : PurgeInv s log) {v : Fin workerCount} {pc : PurgePc} {closed : ℤ → Bool}
    (hlooked : ∀ e, pc.ent = some e → Looked s.fds (log.called v) e)
    (hchecked : ∀ e, pc.ent = some e → ∀ n ∈ pc.pending, closed n = false → s.fds.Stands n e) :
    PurgeInv (s.setPc v pc) (log.setClosed v closed) where
  ring := h.ring
  shown := h.shown
  client := h.client
  both := h.both
  looked := by
    intro v' e he
    by_cases hv : v' = v
    · subst hv
      simp only [PurgeState.setPc, Function.update_self] at he
      exact hlooked e he
    · simp only [PurgeState.setPc, Function.update_of_ne hv] at he
      exact h.looked v' e he
  checked := by
    intro v' e he n hn hclosed
    by_cases hv : v' = v
    · subst hv
      simp only [PurgeState.setPc, PurgeLog.setClosed, Function.update_self] at he hn hclosed
      exact hchecked e he n hn hclosed
    · simp only [PurgeState.setPc, PurgeLog.setClosed, Function.update_of_ne hv] at he hn hclosed
      exact h.checked v' e he n hn hclosed

/-- A worker goes on in `stamp_purge` with what it has checked before. -/
theorem goOn (h : PurgeInv s log) {v : Fin workerCount} {pc : PurgePc}
    (hlooked : ∀ e, pc.ent = some e → Looked s.fds (log.called v) e)
    (hchecked : ∀ e, pc.ent = some e → ∀ n ∈ pc.pending,
      log.closed v n = false → s.fds.Stands n e) :
    PurgeInv (s.setPc v pc) log := by
  have hset := h.setPc hlooked hchecked
  rwa [PurgeLog.setClosed, Function.update_eq_self] at hset

/-- A worker returns from `stamp_purge`. -/
theorem leave (h : PurgeInv s log) (v : Fin workerCount) : PurgeInv (s.setPc v .idle) log :=
  h.goOn (by rintro e ⟨⟩) (by rintro e ⟨⟩)

/-- A thread goes on in `ghost_stamp_record`. -/
theorem setRecording (h : PurgeInv s log) {i : ℕ} {pc : RecordPc} {p : Option ℕ × Option ℕ}
    (hclient : ∀ e, pc = .statTarget e → Noted s.fds p.1 e.cIno)
    (hboth : ∀ e, pc = .store e → Noted s.fds p.1 e.cIno ∧ Noted s.fds p.2 e.tIno) :
    PurgeInv (s.setRecording i pc) (log.setTaking i p) where
  ring := h.ring
  shown := h.shown
  client := by
    intro j e hj
    by_cases hji : j = i
    · subst hji
      simp only [PurgeState.setRecording, PurgeLog.setTaking, Function.update_self] at hj ⊢
      exact hclient e hj
    · simp only [PurgeState.setRecording, PurgeLog.setTaking, Function.update_of_ne hji] at hj ⊢
      exact h.client j e hj
  both := by
    intro j e hj
    by_cases hji : j = i
    · subst hji
      simp only [PurgeState.setRecording, PurgeLog.setTaking, Function.update_self] at hj ⊢
      exact hboth e hj
    · simp only [PurgeState.setRecording, PurgeLog.setTaking, Function.update_of_ne hji] at hj ⊢
      exact h.both j e hj
  looked := h.looked
  checked := h.checked

theorem store (h : PurgeInv s log) {i : ℕ} {st : Stamp} (hst : st.Shown s.fds) :
    PurgeInv ((s.store st.ent).setRecording i .idle) { log with stamps := log.stamps ++ [st] } where
  ring := by
    change (s.store st.ent).ring.Holds .blank ((log.stamps ++ [st]).map Stamp.ent)
    rw [PurgeState.store_ring, List.map_append]
    exact h.ring.record st.ent
  shown := by
    intro st' hst'
    rcases List.mem_append.mp hst' with hold | hnew
    · exact h.shown st' hold
    · rw [List.mem_singleton.mp hnew]
      exact hst
  client := by
    intro j e hj
    by_cases hji : j = i
    · subst hji
      simp only [PurgeState.setRecording, Function.update_self] at hj
      cases hj
    · simp only [PurgeState.setRecording, Function.update_of_ne hji] at hj
      exact h.client j e hj
  both := by
    intro j e hj
    by_cases hji : j = i
    · subst hji
      simp only [PurgeState.setRecording, Function.update_self] at hj
      cases hj
    · simp only [PurgeState.setRecording, Function.update_of_ne hji] at hj
      exact h.both j e hj
  looked := h.looked
  checked := h.checked

theorem lookup (h : PurgeInv s log) {u64 : BitVec 64} {e : StampEnt} (he : s.lookup u64 = some e) :
    e.u64 = u64 ∧ (e = .blank ∨
      ∃ st ∈ OverwriteRing.recent stampRingSize log.stamps, st.ent = e ∧ st.Shown s.fds) := by
  obtain ⟨hu64, hrecent | ⟨-, hblank⟩⟩ := h.ring.find_eq_some he
  · refine ⟨beq_iff_eq.mp hu64, Or.inr ?_⟩
    rw [OverwriteRing.recent_map] at hrecent
    obtain ⟨st, hst, rfl⟩ := List.mem_map.mp hrecent
    exact ⟨st, hst, rfl, h.shown st (List.mem_of_mem_drop hst)⟩
  · exact ⟨beq_iff_eq.mp hu64, Or.inl hblank⟩

/-- `stamp_purge` is called; the worker is not in it before. -/
theorem call (h : PurgeInv s log) {v : Fin workerCount} (hpc : s.pc v = .idle)
    (c : BitVec 64 × List Stamp) :
    PurgeInv s { log with called := Function.update log.called v c } where
  ring := h.ring
  shown := h.shown
  client := h.client
  both := h.both
  looked := by
    intro v' e he
    have hv : v' ≠ v := by
      rintro rfl
      rw [hpc] at he
      cases he
    simp only [Function.update_of_ne hv]
    exact h.looked v' e he
  checked := h.checked

theorem del (h : PurgeInv s log) (w : Fin workerCount) (n : ℤ) :
    PurgeInv (s.setFds (s.fds.epollDel w n)) log :=
  h.setFds_of_files ⟨le_of_eq Descriptors.epollDel_opened.symm, fun d _ => by
    rw [Descriptors.epollDel_ident]⟩ fun m d hm => by
    rw [Descriptors.epollDel_files]
    exact hm

theorem unhook (h : PurgeInv s log) {v w : Fin workerCount} {n : ℤ} {pc : PurgePc}
    (hent : pc.ent = (s.pc v).ent) (hpending : ∀ m ∈ pc.pending, m ∈ (s.pc v).pending) :
    PurgeInv ((s.setFds (s.fds.epollDel w n)).setPc v pc) log := by
  have hdel := h.del w n
  exact hdel.goOn (fun e he => hdel.looked v e (hent.symm.trans he))
    fun e he m hm => hdel.checked v e (hent.symm.trans he) m (hpending m hm)

theorem step (h : PurgeInv s log) {ev : PurgeEvent} (ht : PurgeState.step s ev = some t) :
    PurgeInv t (recordPurge s ev log) := by
  cases ev with
  | openFd fd ino =>
      simp only [PurgeState.step] at ht
      split at ht
      case isTrue =>
        obtain ⟨fds, hfds, rfl⟩ := Option.map_eq_some_iff.mp ht
        exact h.setFds_of_files (Descriptors.openFd_extends hfds) fun _ _ hn =>
          Descriptors.openFd_files hfds hn
      case isFalse => cases ht
  | dupFd fd fd' =>
      simp only [PurgeState.step] at ht
      split at ht
      case isTrue =>
        obtain ⟨fds, hfds, rfl⟩ := Option.map_eq_some_iff.mp ht
        exact h.setFds_of_files (Descriptors.dup_extends hfds) fun _ _ hn =>
          Descriptors.dup_files hfds hn
      case isFalse => cases ht
  | closeFd fd =>
      obtain ⟨fds, hfds, rfl⟩ := Option.map_eq_some_iff.mp ht
      refine h.setFds (Descriptors.close_extends hfds) fun v n hclosed => ?_
      obtain ⟨hne, hopen⟩ := Bool.or_eq_false_iff.mp hclosed
      refine ⟨hopen, fun d hn => ?_⟩
      rw [Descriptors.close_files hfds (of_decide_eq_false hne)]
      exact hn
  | epollAdd w fd =>
      obtain rfl := Option.some.inj ht
      refine h.setFds_of_files ⟨le_of_eq Descriptors.epollAdd_opened.symm, fun d _ => ?_⟩ ?_
      · rw [Descriptors.epollAdd_ident]
      · intro n d hn
        rw [Descriptors.epollAdd_files]
        exact hn
  | epollDel w fd =>
      obtain rfl := Option.some.inj ht
      exact h.del w fd
  | recordClient i u64 clientFd targetFd widx =>
      simp only [PurgeState.step] at ht
      split at ht
      case h_1 =>
        obtain rfl := Option.some.inj ht
        refine h.setRecording ?_ ?_
        · rintro e ⟨⟩
          exact Noted.inoOf s.fds clientFd
        · rintro e ⟨⟩
      all_goals cases ht
  | recordTarget i =>
      simp only [PurgeState.step] at ht
      split at ht
      case h_1 e hpc =>
        obtain rfl := Option.some.inj ht
        simp only [recordPurge, hpc]
        refine h.setRecording ?_ ?_
        · rintro e' ⟨⟩
        · rintro e' ⟨⟩
          exact ⟨h.client i e hpc, Noted.inoOf s.fds e.targetFd⟩
      all_goals cases ht
  | recordStore i =>
      simp only [PurgeState.step] at ht
      split at ht
      case h_1 e hpc =>
        obtain rfl := Option.some.inj ht
        simp only [recordPurge, hpc]
        obtain ⟨hclient, htarget⟩ := h.both i e hpc
        have hshown : Stamp.Shown ⟨e, (log.taking i).1, (log.taking i).2⟩ s.fds := ⟨hclient, htarget⟩
        exact h.store hshown
      all_goals cases ht
  | purge v u64 =>
      simp only [PurgeState.step] at ht
      split at ht
      case h_1 e hpc he =>
        obtain rfl := Option.some.inj ht
        refine (h.call hpc _).goOn ?_ ?_
        · rintro e' ⟨⟩
          obtain ⟨hu64, hblank | ⟨st, hst, hent, hshown⟩⟩ := h.lookup he
          · exact Or.inl hblank
          · refine Or.inr ⟨st, ?_, hent, ?_, hshown⟩
            · simp only [Function.update_self]
              exact hst
            · simp only [Function.update_self]
              exact hu64
        · rintro e' - n ⟨⟩
      case h_2 hpc _ =>
        obtain rfl := Option.some.inj ht
        exact h.call hpc _
      case h_3 => cases ht
  | statClient v =>
      simp only [PurgeState.step] at ht
      split at ht
      case h_1 e hpc =>
        obtain rfl := Option.some.inj ht
        refine h.setPc ?_ ?_
        · rintro e' ⟨⟩
          exact h.looked v e (by rw [hpc]; rfl)
        · rintro e' ⟨⟩ n hn -
          simp only [PurgePc.pending] at hn
          split at hn
          case isTrue hstill =>
            rw [List.mem_singleton.mp hn]
            exact .of_client hstill
          case isFalse => cases hn
      case h_2 => cases ht
  | statTarget v =>
      simp only [PurgeState.step] at ht
      split at ht
      case h_1 e cMatch hpc =>
        obtain rfl := Option.some.inj ht
        refine h.goOn ?_ ?_
        · rintro e' ⟨⟩
          exact h.looked v e (by rw [hpc]; rfl)
        · rintro e' ⟨⟩ n hn hclosed
          obtain ⟨p, hp, rfl⟩ := List.mem_map.mp hn
          rcases StampEnt.mem_quickDels.mp hp with ⟨hmatch, hn⟩ | ⟨hmatch, hn⟩
          · refine h.checked v e (by rw [hpc]; rfl) p.2 ?_ hclosed
            rw [hpc, PurgePc.pending, if_pos hmatch, hn]
            exact List.mem_singleton_self _
          · rw [hn]
            exact .of_target hmatch
      case h_2 => cases ht
  | del v =>
      simp only [PurgeState.step] at ht
      split at ht
      case h_1 hpc =>
        obtain rfl := Option.some.inj ht
        refine h.unhook ?_ ?_
        · rw [hpc]
          rfl
        · intro n hn
          rw [hpc]
          exact List.mem_cons_of_mem _ hn
      case h_2 hpc =>
        obtain rfl := Option.some.inj ht
        refine h.unhook ?_ ?_
        · rw [hpc]
          rfl
        · intro n hn
          rw [hpc]
          exact List.mem_cons_of_mem _ hn
      case h_3 => cases ht
  | clock v nowMs =>
      simp only [PurgeState.step] at ht
      split at ht
      case h_1 e hpc =>
        split at ht
        · obtain rfl := Option.some.inj ht
          exact h.leave v
        · obtain rfl := Option.some.inj ht
          refine h.goOn ?_ ?_
          · rintro e' ⟨⟩
            exact h.looked v e (by rw [hpc]; rfl)
          · rintro e' - n ⟨⟩
      case h_2 => cases ht
  | claim v opendir =>
      simp only [PurgeState.step] at ht
      split at ht
      case h_1 e prevMs nowMs hpc =>
        simp only [recordPurge, hpc]
        split at ht
        case isTrue hprev =>
          obtain rfl := Option.some.inj ht
          rw [if_pos hprev]
          have hnext : PurgeInv { s with gLastScanMs := nowMs }
              { log with scans := log.scans ++ [nowMs] } :=
            ⟨h.ring, h.shown, h.client, h.both, h.looked, h.checked⟩
          cases opendir with
          | true =>
              refine hnext.goOn ?_ ?_
              · rintro e' ⟨⟩
                exact h.looked v e (by rw [hpc]; rfl)
              · rintro e' - n ⟨⟩
          | false => exact hnext.leave v
        case isFalse hprev =>
          obtain rfl := Option.some.inj ht
          rw [if_neg hprev]
          exact h.leave v
      case h_2 => cases ht
  | readdir v n =>
      simp only [PurgeState.step] at ht
      split at ht
      case h_1 e hpc =>
        obtain rfl := Option.some.inj ht
        refine h.setPc ?_ ?_
        · rintro e' ⟨⟩
          exact h.looked v e (by rw [hpc]; rfl)
        · rintro e' ⟨⟩ m hm -
          obtain ⟨p, hp, rfl⟩ := List.mem_map.mp hm
          obtain ⟨hn, hstands⟩ := StampEnt.mem_scanDels.mp hp
          rw [hn]
          exact hstands
      case h_2 => cases ht
  | closedir v =>
      simp only [PurgeState.step] at ht
      split at ht
      case h_1 =>
        obtain rfl := Option.some.inj ht
        exact h.leave v
      case h_2 => cases ht

end PurgeInv

theorem purgeInv_of_run {evs : List PurgeEvent} {s : PurgeState} {log : PurgeLog}
    (hrun : run (record PurgeState.step recordPurge) (.init, .empty) evs = some (s, log)) :
    PurgeInv s log :=
  record_invariant (fun _ _ _ _ h ht => h.step ht) PurgeInv.init hrun

/-! ### What is found -/

/-- In every run, also when the position has gone round the ring and round `int`, an identifier other
than zero is found exactly when one of the last `STAMP_RING_SIZE` records is for it, and what is
found is such a record. -/
theorem stamp_found_iff_recent {evs : List PurgeEvent} {s : PurgeState} {log : PurgeLog}
    (hrun : run (record PurgeState.step recordPurge) (.init, .empty) evs = some (s, log))
    {u64 : BitVec 64} (hne : u64 ≠ 0) :
    (s.lookup u64 = none ↔
      ∀ st ∈ OverwriteRing.recent stampRingSize log.stamps, st.ent.u64 ≠ u64) ∧
    ∀ e, s.lookup u64 = some e →
      ∃ st ∈ OverwriteRing.recent stampRingSize log.stamps, st.ent = e ∧ st.ent.u64 = u64 := by
  have h := purgeInv_of_run hrun
  have hfound : ∀ e, s.lookup u64 = some e →
      ∃ st ∈ OverwriteRing.recent stampRingSize log.stamps, st.ent = e ∧ st.ent.u64 = u64 := by
    intro e he
    obtain ⟨hu64, rfl | ⟨st, hst, rfl, -⟩⟩ := h.lookup he
    · exact absurd hu64.symm hne
    · exact ⟨st, hst, rfl, hu64⟩
  refine ⟨⟨?_, ?_⟩, hfound⟩
  · intro hnone st hst hu64
    have hmem : st.ent ∈ OverwriteRing.recent stampRingSize (log.stamps.map Stamp.ent) := by
      rw [OverwriteRing.recent_map]
      exact List.mem_map_of_mem hst
    have hsome := h.ring.find_isSome (p := fun e => e.u64 == u64) hmem (beq_iff_eq.mpr hu64)
    rw [PurgeState.lookup] at hnone
    rw [hnone] at hsome
    cases hsome
  · intro hall
    cases hlookup : s.lookup u64 with
    | none => rfl
    | some e =>
        obtain ⟨st, hst, -, hu64⟩ := hfound e hlookup
        exact absurd hu64 (hall st hst)

/-- A connection that is registered, recorded, and looked up again. -/
theorem stamp_found_iff_recent_recorded :
    ∃ s log e, run (record PurgeState.step recordPurge) (.init, .empty)
        [.openFd 5 77, .epollAdd 0 5, .recordClient 0 (1#64 <<< 32) 5 (-1) 0, .recordTarget 0,
          .recordStore 0] = some (s, log) ∧
      s.lookup (1#64 <<< 32) = some e ∧
      ∃ st ∈ OverwriteRing.recent stampRingSize log.stamps,
        st.ent = e ∧ st.ent.u64 = 1#64 <<< 32 := by
  obtain ⟨⟨s, log⟩, hrun, hfound⟩ := exists_run_of_any (by decide +kernel :
    (run (record PurgeState.step recordPurge) (.init, .empty)
      [.openFd 5 77, .epollAdd 0 5, .recordClient 0 (1#64 <<< 32) 5 (-1) 0, .recordTarget 0,
        .recordStore 0]).any
        (fun p => decide ((p.1.lookup (1#64 <<< 32)).isSome = true)) = true)
  obtain ⟨e, he⟩ := Option.isSome_iff_exists.mp hfound
  exact ⟨s, log, e, hrun, he, (stamp_found_iff_recent hrun (by decide)).2 e he⟩

/-! ### What is removed -/

/-- A step of a purge changes the interest lists only by a removal of what has been checked. -/
theorem PurgeState.interest_of_step {s t : PurgeState} {ev : PurgeEvent} {v : Fin workerCount}
    (ht : PurgeState.step s ev = some t) (hown : ev.purger = some v) :
    t.fds = s.fds ∨ ∃ e w n, (s.pc v).ent = some e ∧ n ∈ (s.pc v).pending ∧
      t.fds = s.fds.epollDel w n := by
  cases ev with
  | del v' =>
      obtain rfl := Option.some.inj hown
      simp only [PurgeState.step] at ht
      split at ht
      case h_1 e p dels hpc =>
        obtain rfl := Option.some.inj ht
        exact Or.inr ⟨e, p.1, p.2, by rw [hpc]; rfl, by rw [hpc]; exact List.mem_cons_self, rfl⟩
      case h_2 e p dels hpc =>
        obtain rfl := Option.some.inj ht
        exact Or.inr ⟨e, p.1, p.2, by rw [hpc]; rfl, by rw [hpc]; exact List.mem_cons_self, rfl⟩
      case h_3 => cases ht
  | statClient v' | statTarget v' | readdir v' n | closedir v' =>
      simp only [PurgeState.step] at ht
      split at ht
      · obtain rfl := Option.some.inj ht
        exact Or.inl rfl
      · cases ht
  | clock v' nowMs | claim v' opendir =>
      simp only [PurgeState.step] at ht
      split at ht
      · split at ht
        · obtain rfl := Option.some.inj ht
          exact Or.inl rfl
        · obtain rfl := Option.some.inj ht
          exact Or.inl rfl
      · cases ht
  | openFd | dupFd | closeFd | epollAdd | epollDel | recordClient | recordTarget | recordStore |
    purge => cases hown

/-- However the threads interleave, a registration that a purge takes out of an epoll instance is of
a file with the inode that a number of the purged connection had when it was recorded, the record
being among the last `STAMP_RING_SIZE` at the call, unless its number was closed after the purge
had begun to check it. -/
theorem purge_spares_others {evs : List PurgeEvent} {s t : PurgeState} {log : PurgeLog}
    (hrun : run (record PurgeState.step recordPurge) (.init, .empty) evs = some (s, log))
    {ev : PurgeEvent} {v w : Fin workerCount} (ht : PurgeState.step s ev = some t)
    (hown : ev.purger = some v) {n : ℤ} {d : ℕ} (hin : ⟨n, d⟩ ∈ s.fds.interest w)
    (hout : ⟨n, d⟩ ∉ t.fds.interest w) :
    log.closed v n = true ∨ ∃ st ∈ (log.called v).2, st.ent.u64 = (log.called v).1 ∧
      ∃ d', (st.client = some d' ∨ st.target = some d') ∧ s.fds.ident d' = s.fds.ident d := by
  have h := purgeInv_of_run hrun
  rcases PurgeState.interest_of_step ht hown with hsame | ⟨e, w', m, hent, hpending, hdel⟩
  · rw [hsame] at hout
    exact absurd hin hout
  · rw [hdel, Descriptors.epollDel_interest, List.mem_filter, not_and] at hout
    have hhit := of_decide_eq_true (Bool.not_eq_false _ |>.mp fun hno => hout hin (by rw [hno]; rfl))
    obtain ⟨-, rfl, hfile⟩ := hhit
    cases hclosed : log.closed v n with
    | true => exact Or.inl rfl
    | false =>
        obtain ⟨d', hd', hhas⟩ := h.checked v e hent n hpending hclosed
        obtain rfl := Option.some.inj (hfile.symm.trans hd')
        rcases h.looked v e hent with rfl | ⟨st, hst, rfl, hu64, hshown⟩
        · rw [StampEnt.not_hasIno_blank] at hhas
          cases hhas
        · exact Or.inr ⟨st, hst, hu64, hshown.hasIno hhas⟩

/-- Two connections, the first of which is recorded; worker 1 has checked its client number. -/
def checkedClient : List PurgeEvent :=
  [.openFd 5 77, .openFd 6 78, .epollAdd 0 5, .epollAdd 0 6, .recordClient 0 (1#64 <<< 32) 5 (-1) 0,
    .recordTarget 0, .recordStore 0, .purge 1 (1#64 <<< 32), .statClient 1, .statTarget 1]

/-- The registration of the recorded connection is removed. -/
theorem purge_spares_others_checkedClient :
    ∃ s log t, run (record PurgeState.step recordPurge) (.init, .empty) checkedClient =
        some (s, log) ∧ PurgeState.step s (.del 1) = some t ∧
      ⟨5, 0⟩ ∈ s.fds.interest 0 ∧ ⟨5, 0⟩ ∉ t.fds.interest 0 ∧
      (log.closed 1 5 = true ∨ ∃ st ∈ (log.called 1).2, st.ent.u64 = (log.called 1).1 ∧
        ∃ d', (st.client = some d' ∨ st.target = some d') ∧ s.fds.ident d' = s.fds.ident 0) := by
  obtain ⟨⟨s, log⟩, hrun, hin, hdel⟩ := exists_run_of_any (by decide +kernel :
    (run (record PurgeState.step recordPurge) (.init, .empty) checkedClient).any (fun p =>
      decide (⟨5, 0⟩ ∈ p.1.fds.interest 0 ∧ (PurgeState.step p.1 (.del 1)).any (fun t =>
        decide (⟨5, 0⟩ ∉ t.fds.interest 0)) = true)) = true)
  obtain ⟨t, ht, hout⟩ := (Option.any_eq_true _ _).mp hdel
  have hout' := of_decide_eq_true hout
  exact ⟨s, log, t, hrun, ht, hin, hout', purge_spares_others hrun ht rfl hin hout'⟩

/-- The exception is needed. When the checked number is closed and given to another connection before
the removal, that connection is taken out. -/
example : (run PurgeState.step .init
    (checkedClient ++ [.closeFd 5, .openFd 5 79, .epollAdd 0 5, .del 1])).any (fun s =>
      decide (s.fds.files 5 = some 2 ∧ ⟨5, 2⟩ ∉ s.fds.interest 0)) = true := by
  decide +kernel

/-! ### How often a scan is made -/

/-- The scans are apart, and a worker that may claim one has read a clock that is far enough on. -/
structure ScanInv (s : PurgeState) (log : PurgeLog) : Prop where
  apart : log.scans.Pairwise fun a b => a + scanIntervalMs ≤ b
  le_last : ∀ a ∈ log.scans, a ≤ s.gLastScanMs
  due : ∀ v e prevMs nowMs, s.pc v = .claim e prevMs nowMs → prevMs + scanIntervalMs ≤ nowMs

theorem PurgeState.setPc_claim {s : PurgeState} {v v' : Fin workerCount} {pc : PurgePc}
    {e : StampEnt} {prevMs nowMs : ℤ} (h : (s.setPc v pc).pc v' = .claim e prevMs nowMs) :
    pc = .claim e prevMs nowMs ∨ s.pc v' = .claim e prevMs nowMs := by
  by_cases hv : v' = v
  · subst hv
    rw [setPc] at h
    simp only [Function.update_self] at h
    exact Or.inl h
  · rw [setPc] at h
    simp only [Function.update_of_ne hv] at h
    exact Or.inr h

namespace ScanInv

variable {s t : PurgeState} {log log' : PurgeLog}

theorem init : ScanInv .init .empty where
  apart := List.Pairwise.nil
  le_last := by
    rintro a ⟨⟩
  due := by
    rintro v e prevMs nowMs ⟨⟩

theorem frame (h : ScanInv s log) (hlast : t.gLastScanMs = s.gLastScanMs)
    (hscans : log'.scans = log.scans)
    (hpc : ∀ v e prevMs nowMs, t.pc v = .claim e prevMs nowMs →
      s.pc v = .claim e prevMs nowMs ∨ prevMs + scanIntervalMs ≤ nowMs) : ScanInv t log' where
  apart := by
    rw [hscans]
    exact h.apart
  le_last := by
    rw [hscans, hlast]
    exact h.le_last
  due := by
    intro v e prevMs nowMs hv
    rcases hpc v e prevMs nowMs hv with hold | hdue
    · exact h.due v e prevMs nowMs hold
    · exact hdue

theorem setPc (h : ScanInv s log) {fds : FdTable} {v : Fin workerCount} {pc : PurgePc}
    (hscans : log'.scans = log.scans)
    (hdue : ∀ e prevMs nowMs, pc = .claim e prevMs nowMs → prevMs + scanIntervalMs ≤ nowMs) :
    ScanInv ((s.setFds fds).setPc v pc) log' :=
  h.frame rfl hscans fun _ e prevMs nowMs hv =>
    (PurgeState.setPc_claim hv).symm.imp_right (hdue e prevMs nowMs)

/-- The exchange of `g_last_scan_ms` succeeds. -/
theorem claim (h : ScanInv s log) {v : Fin workerCount} {e : StampEnt} {nowMs : ℤ}
    (hpc : s.pc v = .claim e s.gLastScanMs nowMs) {pc : PurgePc} (hnext : pc = .scan e [] ∨ pc = .idle)
    (hscans : log'.scans = log.scans ++ [nowMs]) :
    ScanInv (PurgeState.setPc { s with gLastScanMs := nowMs } v pc) log' := by
  have hdue := h.due v e _ nowMs hpc
  constructor
  · rw [hscans, List.pairwise_append]
    refine ⟨h.apart, List.pairwise_singleton _ _, ?_⟩
    intro a ha b hb
    have hle := h.le_last a ha
    rw [List.mem_singleton.mp hb]
    omega
  · intro a ha
    change a ≤ nowMs
    rw [hscans] at ha
    rcases List.mem_append.mp ha with hold | hnew
    · have hle := h.le_last a hold
      change s.gLastScanMs + 200 ≤ nowMs at hdue
      omega
    · exact le_of_eq (List.mem_singleton.mp hnew)
  · intro v' e' prevMs nowMs' hv
    rcases PurgeState.setPc_claim hv with rfl | hold
    · rcases hnext with hno | hno <;> cases hno
    · exact h.due v' e' prevMs nowMs' hold

theorem step (h : ScanInv s log) {ev : PurgeEvent} (ht : PurgeState.step s ev = some t) :
    ScanInv t (recordPurge s ev log) := by
  cases ev with
  | openFd | dupFd =>
      simp only [PurgeState.step] at ht
      split at ht
      · obtain ⟨fds, -, rfl⟩ := Option.map_eq_some_iff.mp ht
        exact h.frame rfl rfl fun _ _ _ _ hv => Or.inl hv
      · cases ht
  | closeFd fd =>
      obtain ⟨fds, -, rfl⟩ := Option.map_eq_some_iff.mp ht
      exact h.frame rfl rfl fun _ _ _ _ hv => Or.inl hv
  | epollAdd | epollDel =>
      obtain rfl := Option.some.inj ht
      exact h.frame rfl rfl fun _ _ _ _ hv => Or.inl hv
  | recordClient | recordTarget | recordStore =>
      simp only [PurgeState.step] at ht
      split at ht
      case h_1 hpc =>
        obtain rfl := Option.some.inj ht
        refine h.frame rfl ?_ fun _ _ _ _ hv => Or.inl hv
        simp only [recordPurge, PurgeLog.setTaking, hpc]
      all_goals cases ht
  | purge v u64 =>
      simp only [PurgeState.step] at ht
      split at ht
      case h_1 =>
        obtain rfl := Option.some.inj ht
        exact h.setPc rfl (by rintro e prevMs nowMs ⟨⟩)
      case h_2 =>
        obtain rfl := Option.some.inj ht
        exact h.frame rfl rfl fun _ _ _ _ hv => Or.inl hv
      case h_3 => cases ht
  | statClient | statTarget | readdir | closedir =>
      simp only [PurgeState.step] at ht
      split at ht
      · obtain rfl := Option.some.inj ht
        exact h.setPc rfl (by rintro e prevMs nowMs ⟨⟩)
      · cases ht
  | del v =>
      simp only [PurgeState.step] at ht
      split at ht
      case h_1 | h_2 =>
        obtain rfl := Option.some.inj ht
        exact h.setPc rfl (by rintro e prevMs nowMs ⟨⟩)
      case h_3 => cases ht
  | clock v nowMs =>
      simp only [PurgeState.step] at ht
      split at ht
      case h_1 =>
        split at ht
        case isTrue =>
          obtain rfl := Option.some.inj ht
          exact h.setPc rfl (by rintro e prevMs nowMs ⟨⟩)
        case isFalse hdue =>
          obtain rfl := Option.some.inj ht
          refine h.setPc rfl ?_
          rintro e prevMs nowMs ⟨⟩
          omega
      case h_2 => cases ht
  | claim v opendir =>
      simp only [PurgeState.step] at ht
      split at ht
      case h_1 e prevMs nowMs hpc =>
        simp only [recordPurge, hpc]
        split at ht
        case isTrue hprev =>
          obtain rfl := Option.some.inj ht
          subst hprev
          refine h.claim hpc ?_ (by rw [if_pos rfl])
          cases opendir with
          | true => exact Or.inl rfl
          | false => exact Or.inr rfl
        case isFalse hprev =>
          obtain rfl := Option.some.inj ht
          exact h.setPc (by rw [if_neg hprev]) (by rintro e prevMs nowMs ⟨⟩)
      case h_2 => cases ht

end ScanInv

/-- Whatever the workers read off the clock, and however they race for a scan, the readings of the
scans that are made are `scanIntervalMs` apart. -/
theorem scans_apart {evs : List PurgeEvent} {s : PurgeState} {log : PurgeLog}
    (hrun : run (record PurgeState.step recordPurge) (.init, .empty) evs = some (s, log)) :
    log.scans.Pairwise fun a b => a + scanIntervalMs ≤ b := by
  have h : ScanInv s log := record_invariant (fun _ _ _ _ h ht => h.step ht) ScanInv.init hrun
  exact h.apart

/-- A call at a quarter of a second and one that comes too soon after it. -/
theorem scans_apart_twoCalls :
    ∃ s log, run (record PurgeState.step recordPurge) (.init, .empty)
        [.purge 0 0, .statClient 0, .statTarget 0, .clock 0 250, .claim 0 true, .closedir 0,
          .purge 1 0, .statClient 1, .statTarget 1, .clock 1 449, .purge 1 0, .statClient 1,
          .statTarget 1, .clock 1 450, .claim 1 true] = some (s, log) ∧
      log.scans = [250, 450] ∧ log.scans.Pairwise fun a b => a + scanIntervalMs ≤ b := by
  obtain ⟨⟨s, log⟩, hrun, hscans⟩ := exists_run_of_any (by decide +kernel :
    (run (record PurgeState.step recordPurge) (.init, .empty)
      [.purge 0 0, .statClient 0, .statTarget 0, .clock 0 250, .claim 0 true, .closedir 0,
        .purge 1 0, .statClient 1, .statTarget 1, .clock 1 449, .purge 1 0, .statClient 1,
        .statTarget 1, .clock 1 450, .claim 1 true]).any
        (fun p => decide (p.2.scans = [250, 450])) = true)
  exact ⟨s, log, hrun, hscans, scans_apart hrun⟩

end FiveGProxy
