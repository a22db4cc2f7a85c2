import FiveGProxy.Listeners.Model

/-!
# One round brings the table to the wanted addresses

The loop that prunes the table deletes entries while it goes over them. `pruneLoop_spec` says that
it filters the table; behind it every slot is verified, and the addresses that are still missing are
added one by one.
-/

namespace FiveGProxy

open Steps

namespace Listeners

variable {inet : InetText} {port : Port} {st : Listeners} {desired : List (List UInt8)}

/-! ### Closing -/

def closeFds (t : Fds) (l : List ListenerSlot) : Fds := l.foldl (fun t s => t.close s.fd) t

theorem closeFds_file (t : Fds) (l : List ListenerSlot) (fd : ℕ) :
    (closeFds t l).file fd = if fd ∈ l.map ListenerSlot.fd then none else t.file fd := by
  induction l generalizing t with
  | nil => rfl
  | cons s l ih =>
      rw [closeFds, List.foldl_cons, ← closeFds, ih, List.map_cons, Fds.close_file]
      by_cases hs : fd = s.fd
      · subst hs
        simp
      · simp [hs]

/-- Every descriptor of the list is closed once, with what stood behind it at the beginning. -/
theorem foldl_closeListener (l : List ListenerSlot) (st : Listeners)
    (hnodup : (l.map ListenerSlot.fd).Nodup) :
    l.foldl (fun st s => st.closeListener s.fd) st =
      { st with
        fds := closeFds st.fds l
        closes := st.closes ++ l.map fun s => (s.fd, st.fds.file s.fd) } := by
  induction l generalizing st with
  | nil => simp [closeFds]
  | cons s l ih =>
      obtain ⟨hs, hl⟩ := List.nodup_cons.mp ((List.map_cons ..).symm ▸ hnodup)
      rw [List.foldl_cons, ih _ hl]
      have hsame : l.map (fun s' => (s'.fd, (st.closeListener s.fd).fds.file s'.fd)) =
          l.map fun s' => (s'.fd, st.fds.file s'.fd) := by
        refine List.map_congr_left fun s' hs' => ?_
        have hne : s'.fd ≠ s.fd := fun h => hs (h ▸ List.mem_map_of_mem hs')
        simp [closeListener, hne]
      rw [hsame]
      simp [closeListener, closeFds]

theorem listenerIsOurs_congr {t t' : Fds} {s : ListenerSlot} (h : t'.file s.fd = t.file s.fd) :
    listenerIsOurs inet port t' s = listenerIsOurs inet port t s := by
  unfold listenerIsOurs
  rw [h]

theorem listenerIsOurs_open {t : Fds} {s : ListenerSlot}
    (h : listenerIsOurs inet port t s = true) : t.file s.fd ≠ none := by
  intro hnone
  rw [listenerIsOurs, hnone] at h
  cases h

/-! ### The loop -/

def keeps (inet : InetText) (port : Port) (desired : List (List UInt8)) (t : Fds)
    (s : ListenerSlot) : Bool :=
  wanted desired s.addr && listenerIsOurs inet port t s

def drops (inet : InetText) (port : Port) (desired : List (List UInt8)) (t : Fds)
    (s : ListenerSlot) : Bool :=
  !wanted desired s.addr && listenerIsOurs inet port t s

def pruned (inet : InetText) (port : Port) (desired : List (List UInt8))
    (kept rest : List ListenerSlot) (st : Listeners) : Listeners :=
  { st with
    slots := kept ++ rest.filter (keeps inet port desired st.fds)
    fds := closeFds st.fds (rest.filter (drops inet port desired st.fds))
    closes := st.closes ++ (rest.filter (drops inet port desired st.fds)).map fun s =>
      (s.fd, st.fds.file s.fd) }

/-- The loop at index `kept.length`: the entries before it stay. -/
theorem pruneLoop_spec (rest : List ListenerSlot) {fuel : ℕ} {kept : List ListenerSlot}
    {st : Listeners} (hslots : st.slots = kept ++ rest) (hfuel : rest.length ≤ fuel)
    (hnodup : (rest.map ListenerSlot.fd).Nodup) :
    st.pruneLoop inet port desired fuel kept.length = pruned inet port desired kept rest st := by
  induction rest generalizing fuel kept st with
  | nil =>
      have hnone : st.slots[kept.length]? = none := by simp [hslots]
      have hend : st.pruneLoop inet port desired fuel kept.length = st := by
        cases fuel with
        | zero => rfl
        | succ fuel => rw [pruneLoop, hnone]
      rw [hend]
      simp [pruned, closeFds, ← hslots]
  | cons s rest ih =>
      obtain ⟨fuel, rfl⟩ := Nat.exists_eq_add_of_le' (Nat.le_trans (Nat.succ_pos _) hfuel)
      obtain ⟨hs, hrest⟩ := List.nodup_cons.mp ((List.map_cons ..).symm ▸ hnodup)
      have hat : st.slots[kept.length]? = some s := by simp [hslots]
      have hle : rest.length ≤ fuel := by simpa using hfuel
      rw [pruneLoop, hat]
      change (if keeps inet port desired st.fds s = true then _ else _) = _
      by_cases hkeep : keeps inet port desired st.fds s = true
      · have hdrop : ¬drops inet port desired st.fds s = true := by
          rw [keeps, Bool.and_eq_true] at hkeep
          rw [drops, hkeep.1]
          exact Bool.false_ne_true
        have hnext := @ih fuel (kept ++ [s]) st (by simp [hslots]) hle hrest
        rw [List.length_append, List.length_singleton] at hnext
        rw [if_pos hkeep, hnext, pruned, pruned, List.filter_cons_of_pos hkeep,
          List.filter_cons_of_neg hdrop, List.append_assoc]
        rfl
      · rw [if_neg hkeep]
        have hother : ∀ t ∈ rest, t.fd ≠ s.fd := fun t ht h => hs (h ▸ List.mem_map_of_mem ht)
        have herase : st.slots.eraseIdx kept.length = kept ++ rest := by
          rw [hslots, List.eraseIdx_append_of_length_le (Nat.le_refl _), Nat.sub_self]
          rfl
        have hrestEq : ∀ st₁ : Listeners, st₁.slots = kept ++ rest →
            (∀ t ∈ rest, st₁.fds.file t.fd = st.fds.file t.fd) →
            st₁.pruneLoop inet port desired fuel kept.length =
              { st₁ with
                slots := kept ++ rest.filter (keeps inet port desired st.fds)
                fds := closeFds st₁.fds (rest.filter (drops inet port desired st.fds))
                closes := st₁.closes ++ (rest.filter (drops inet port desired st.fds)).map fun s =>
                  (s.fd, st.fds.file s.fd) } := by
          intro st₁ hst₁ hsame
          have hkeeps : rest.filter (keeps inet port desired st₁.fds) =
              rest.filter (keeps inet port desired st.fds) :=
            List.filter_congr fun t ht => by
              rw [keeps, keeps, listenerIsOurs_congr (hsame t ht)]
          have hdrops : rest.filter (drops inet port desired st₁.fds) =
              rest.filter (drops inet port desired st.fds) :=
            List.filter_congr fun t ht => by
              rw [drops, drops, listenerIsOurs_congr (hsame t ht)]
          have hfiles : (rest.filter (drops inet port desired st.fds)).map
              (fun s => (s.fd, st₁.fds.file s.fd)) =
                (rest.filter (drops inet port desired st.fds)).map
                  fun s => (s.fd, st.fds.file s.fd) :=
            List.map_congr_left fun t ht => by rw [hsame t (List.mem_of_mem_filter ht)]
          rw [ih hst₁ hle hrest, pruned, hkeeps, hdrops, hfiles]
        rw [dropListenerSlot, hat]
        dsimp only
        cases hours : listenerIsOurs inet port st.fds s with
        | true =>
            have hdrop : drops inet port desired st.fds s = true := by
              rw [keeps, hours, Bool.and_true] at hkeep
              rw [drops, hours, Bool.eq_false_of_not_eq_true hkeep]
              rfl
            rw [if_pos rfl, hrestEq _ herase fun t ht => ?_, pruned,
              List.filter_cons_of_neg hkeep, List.filter_cons_of_pos hdrop, List.map_cons]
            · simp [closeListener, closeFds]
            · simp [closeListener, hother t ht]
        | false =>
            have hdrop : ¬drops inet port desired st.fds s = true := by
              rw [drops, hours, Bool.and_false]
              exact Bool.false_ne_true
            rw [if_neg Bool.false_ne_true, pruned, List.filter_cons_of_neg hkeep,
              List.filter_cons_of_neg hdrop]
            exact hrestEq { st with slots := st.slots.eraseIdx kept.length } herase fun t _ => rfl

/-! ### The table -/

/-- The two arrays hold no number and no text twice, and the texts are cut to their size. -/
structure TableInv (st : Listeners) : Prop where
  fds : (st.slots.map ListenerSlot.fd).Nodup
  addrs : st.addrs.Nodup
  short : ∀ ip ∈ st.bindAddrs, ip.length < inet6AddrStrLen
  few : st.bindAddrs.length ≤ maxBindAddrs

def Live (st : Listeners) : Prop := ∀ s ∈ st.slots, st.fds.file s.fd ≠ none

theorem pruned_spec (inet : InetText) (port : Port) (desired : List (List UInt8))
    (h : TableInv st) :
    TableInv (pruned inet port desired [] st.slots st) ∧
      ∀ s ∈ (pruned inet port desired [] st.slots st).slots, s ∈ st.slots ∧
        wanted desired s.addr = true ∧
        (pruned inet port desired [] st.slots st).fds.file s.fd = st.fds.file s.fd ∧
        listenerIsOurs inet port (pruned inet port desired [] st.slots st).fds s = true := by
  have hsub : (st.slots.filter (keeps inet port desired st.fds)).Sublist st.slots :=
    List.filter_sublist
  refine ⟨⟨h.fds.sublist (hsub.map _), h.addrs.sublist (hsub.map _), h.short, h.few⟩, ?_⟩
  intro s hs
  obtain ⟨hmem, hkeep⟩ := List.mem_filter.mp hs
  rw [keeps, Bool.and_eq_true] at hkeep
  have hfile : (pruned inet port desired [] st.slots st).fds.file s.fd = st.fds.file s.fd := by
    rw [pruned, closeFds_file, if_neg]
    intro hclosed
    obtain ⟨t, ht, hfd⟩ := List.mem_map.mp hclosed
    obtain ⟨htmem, hdrop⟩ := List.mem_filter.mp ht
    obtain rfl := List.inj_on_of_nodup_map h.fds htmem hmem hfd
    rw [drops, hkeep.1] at hdrop
    cases hdrop
  exact ⟨hmem, hkeep.1, hfile, (listenerIsOurs_congr hfile).trans hkeep.2⟩

def withListener (st : Listeners) (port : Port) (ip : List UInt8) (a : IpAddr) : Listeners :=
  { st with
    fds := st.fds.set st.fds.lowest ⟨some true, some (a, port.val), some st.opened⟩
    opened := st.opened + 1
    tries := st.tries + 1
    slots := st.slots ++ [⟨st.fds.lowest, ip.take (inet6AddrStrLen - 1)⟩] }

def withClosed (st : Listeners) (name : IpAddr × ℕ) : Listeners :=
  { st with
    fds := (st.fds.set st.fds.lowest ⟨some false, some name, some st.opened⟩).close st.fds.lowest
    opened := st.opened + 1
    tries := st.tries + 1
    closes := st.closes ++ [(st.fds.lowest, some ⟨some false, some name, some st.opened⟩)] }

/-- What an attempt that fails leaves behind. -/
inductive Failed (st : Listeners) : Listeners → Prop
  | spelling : Failed st st
  | noSocket : Failed st { st with tries := st.tries + 1 }
  | closed (name : IpAddr × ℕ) : Failed st (st.withClosed name)

theorem withClosed_file (st : Listeners) (name : IpAddr × ℕ) (fd : ℕ) :
    (st.withClosed name).fds.file fd = st.fds.file fd := by
  rw [withClosed, Fds.close_file, Fds.set_file]
  by_cases hfd : fd = st.fds.lowest
  · rw [hfd, Function.update_self, st.fds.file_lowest]
  · rw [Function.update_of_ne hfd, Function.update_of_ne hfd]

theorem addListenerForIp_cases (outcome : ℕ → IpAddr → ListenOutcome) (ip : List UInt8) :
    maxListeners ≤ st.slots.length ∧
        st.addListenerForIp inet port outcome ip = { st with refused := st.refused ++ [ip] } ∨
      st.slots.length < maxListeners ∧
        ((∃ a, inet.parse ip = some a ∧ outcome st.tries a = .ok ∧
            st.addListenerForIp inet port outcome ip = st.withListener port ip a) ∨
          (∀ a, inet.parse ip = some a → outcome st.tries a ≠ .ok) ∧
            Failed st (st.addListenerForIp inet port outcome ip)) := by
  unfold addListenerForIp
  by_cases hfull : maxListeners ≤ st.slots.length
  · exact .inl ⟨hfull, if_pos hfull⟩
  · rw [if_neg hfull]
    refine .inr ⟨Nat.lt_of_not_le hfull, ?_⟩
    cases hparse : inet.parse ip with
    | none => exact .inr ⟨by rintro a ⟨⟩, .spelling⟩
    | some a =>
        -- the socket is closed with what was stored behind its number
        have hclosed : ∀ name : IpAddr × ℕ,
            (openSocket { st with tries := st.tries + 1 } false name).closeListener
              st.fds.lowest = st.withClosed name := by
          intro name
          rw [withClosed, closeListener, openSocket, Fds.set_file, Function.update_self]
        cases houtcome : outcome st.tries a with
        | ok =>
            refine .inl ⟨a, rfl, houtcome, ?_⟩
            simp only [houtcome]
            rfl
        | noSocket | bindFails | listenFails =>
            refine .inr ⟨?_, ?_⟩
            · rintro b ⟨⟩
              rw [houtcome]
              rintro ⟨⟩
            · simp only [houtcome, hclosed]
              constructor

theorem lowest_fresh (h : st.Live) {s : ListenerSlot} (hs : s ∈ st.slots) :
    s.fd ≠ st.fds.lowest := fun heq => h s hs (heq ▸ st.fds.file_lowest)

theorem withListener_file_of_mem (h : st.Live) {ip : List UInt8} {a : IpAddr} {s : ListenerSlot}
    (hs : s ∈ st.slots) : (st.withListener port ip a).fds.file s.fd = st.fds.file s.fd := by
  rw [withListener, Fds.set_file, Function.update_of_ne (lowest_fresh h hs)]

theorem TableInv.withListener (h : TableInv st) (hlive : st.Live) (port : Port)
    {ip : List UInt8} (a : IpAddr) (hip : ip.length < inet6AddrStrLen) (hnew : ip ∉ st.addrs) :
    TableInv (st.withListener port ip a) ∧ (st.withListener port ip a).Live := by
  have htake : ip.take (inet6AddrStrLen - 1) = ip :=
    List.take_of_length_le (Nat.le_sub_one_of_lt hip)
  refine ⟨⟨?_, ?_, h.short, h.few⟩, fun s hs => ?_⟩
  · rw [Listeners.withListener, List.map_append]
    refine List.nodup_append'.mpr ⟨h.fds, List.nodup_singleton _, ?_⟩
    intro fd hfd hfd'
    obtain ⟨s, hs, rfl⟩ := List.mem_map.mp hfd
    exact lowest_fresh hlive hs (by simpa using hfd')
  · rw [Listeners.addrs, Listeners.withListener, List.map_append]
    refine List.nodup_append'.mpr ⟨h.addrs, List.nodup_singleton _, ?_⟩
    intro x hx hx'
    rw [htake] at hx'
    have hxip : x = ip := by simpa using hx'
    exact hnew (hxip ▸ hx)
  · rcases List.mem_append.mp hs with hs | hs
    · rw [withListener_file_of_mem hlive hs]
      exact hlive s hs
    · obtain rfl := List.mem_singleton.mp hs
      simp [Listeners.withListener]

theorem addrInList_iff {ip : List UInt8} {l : List (List UInt8)} :
    addrInList ip l = true ↔ ip ∈ l := by
  simp [addrInList]

/-- An attempt that fails leaves the table and what is open as it was. -/
theorem Failed.spec {st' : Listeners} (h : Failed st st') :
    st'.slots = st.slots ∧ (∀ fd, st'.fds.file fd = st.fds.file fd) ∧
      st'.bindAddrs = st.bindAddrs ∧ st'.serverRunning = st.serverRunning ∧
      st'.thread = st.thread ∧ st'.refused = st.refused := by
  cases h with
  | spelling | noSocket => exact ⟨rfl, fun _ => rfl, rfl, rfl, rfl, rfl⟩
  | closed name => exact ⟨rfl, withClosed_file st name, rfl, rfl, rfl, rfl⟩

theorem TableInv.failed (h : TableInv st) {st' : Listeners} (hfailed : Failed st st') :
    TableInv st' := by
  obtain ⟨hslots, -, hbind, -, -, -⟩ := hfailed.spec
  refine ⟨?_, ?_, ?_, ?_⟩
  · rw [hslots]
    exact h.fds
  · rw [Listeners.addrs, hslots]
    exact h.addrs
  · rw [hbind]
    exact h.short
  · rw [hbind]
    exact h.few

theorem Live.failed (h : st.Live) {st' : Listeners} (hfailed : Failed st st') : st'.Live := by
  obtain ⟨hslots, hfile, -, -, -, -⟩ := hfailed.spec
  intro s hs
  rw [hfile]
  exact h s (hslots ▸ hs)

theorem TableInv.addMissing (h : TableInv st) (hlive : st.Live) (inet : InetText) (port : Port)
    (outcome : ℕ → IpAddr → ListenOutcome) (ip : List UInt8) (hip : ip.length < inet6AddrStrLen) :
    TableInv (st.addMissing inet port outcome ip) ∧
      (st.addMissing inet port outcome ip).Live ∧
      (st.addMissing inet port outcome ip).bindAddrs = st.bindAddrs := by
  rw [Listeners.addMissing]
  by_cases hmem : addrInList ip st.addrs = true
  · rw [if_pos hmem]
    exact ⟨h, hlive, rfl⟩
  · rw [if_neg hmem]
    rw [addrInList_iff] at hmem
    rcases addListenerForIp_cases outcome ip with ⟨-, heq⟩ | ⟨-, ⟨a, -, -, heq⟩ | ⟨-, hfailed⟩⟩
    · rw [heq]
      exact ⟨⟨h.fds, h.addrs, h.short, h.few⟩, hlive, rfl⟩
    · rw [heq]
      obtain ⟨htable, hlive'⟩ := h.withListener hlive port a hip hmem
      exact ⟨htable, hlive', rfl⟩
    · exact ⟨h.failed hfailed, hlive.failed hfailed, hfailed.spec.2.2.1⟩

theorem TableInv.foldl_addMissing (outcome : ℕ → IpAddr → ListenOutcome) {l : List (List UInt8)}
    (h : TableInv st) (hlive : st.Live) (hl : ∀ ip ∈ l, ip.length < inet6AddrStrLen) :
    TableInv (l.foldl (Listeners.addMissing inet port outcome) st) ∧
      (l.foldl (Listeners.addMissing inet port outcome) st).Live := by
  induction l generalizing st with
  | nil => exact ⟨h, hlive⟩
  | cons ip l ih =>
      obtain ⟨htable, hlive', -⟩ :=
        h.addMissing hlive inet port outcome ip (hl ip List.mem_cons_self)
      exact ih htable hlive' fun ip' hip' => hl ip' (List.mem_cons_of_mem _ hip')

theorem pruneLoop_eq (h : TableInv st) :
    st.pruneLoop inet port desired st.slots.length 0 = pruned inet port desired [] st.slots st :=
  @pruneLoop_spec inet port desired st.slots _ [] st rfl (Nat.le_refl _) h.fds

theorem TableInv.reconcile (h : TableInv st) (outcome : ℕ → IpAddr → ListenOutcome) :
    TableInv (st.reconcileListeners inet port outcome) := by
  unfold reconcileListeners
  split
  · obtain ⟨htable, hspec⟩ := pruned_spec inet port st.bindAddrs h
    have hlive : (pruned inet port st.bindAddrs [] st.slots st).Live := fun s hs =>
      listenerIsOurs_open (hspec s hs).2.2.2
    dsimp only
    rw [pruneLoop_eq h]
    obtain ⟨h₁, hlive₁, -⟩ := htable.addMissing hlive inet port outcome loopback4 (by decide)
    obtain ⟨h₂, hlive₂, -⟩ := h₁.addMissing hlive₁ inet port outcome loopback6 (by decide)
    exact (h₂.foldl_addMissing outcome hlive₂ h.short).1
  · exact h

/-! ### Convergence -/

def targets (st : Listeners) : List (List UInt8) := loopback4 :: loopback6 :: st.bindAddrs

theorem wanted_iff {ip : List UInt8} : wanted st.bindAddrs ip = true ↔ ip ∈ st.targets := by
  simp [wanted, isPermanentAddr, addrInList, targets, or_assoc]

/-- Every slot is wanted, and its listener is the engine's own on that address. -/
structure Settled (inet : InetText) (port : Port) (st : Listeners) : Prop extends TableInv st where
  wanted : ∀ s ∈ st.slots, s.addr ∈ st.targets
  verified : ∀ s ∈ st.slots, listenerIsOurs inet port st.fds s = true

theorem Settled.live (h : Settled inet port st) : st.Live := fun s hs =>
  listenerIsOurs_open (h.verified s hs)

theorem Settled.addrs_subset (h : Settled inet port st) : st.addrs ⊆ st.targets := by
  intro ip hip
  obtain ⟨s, hs, rfl⟩ := List.mem_map.mp hip
  exact h.wanted s hs

theorem Settled.room (h : Settled inet port st) {ip : List UInt8} (hip : ip ∈ st.targets)
    (hnew : ip ∉ st.addrs) : st.slots.length < maxListeners := by
  have hnodup : (ip :: st.addrs).Nodup := List.nodup_cons.mpr ⟨hnew, h.addrs⟩
  have hsub : ip :: st.addrs ⊆ st.targets := List.cons_subset.mpr ⟨hip, h.addrs_subset⟩
  have hle := (hnodup.subperm hsub).length_le
  have hfew := h.few
  simp only [targets, List.length_cons, addrs, List.length_map] at hle
  unfold maxListeners
  omega

theorem Settled.withListener (h : Settled inet port st) {ip : List UInt8} {a : IpAddr}
    (hip : ip ∈ st.targets) (hlen : ip.length < inet6AddrStrLen) (hnew : ip ∉ st.addrs)
    (hcanonical : inet.Canonical ip) (hparse : inet.parse ip = some a) :
    Settled inet port (st.withListener port ip a) := by
  have htake : ip.take (inet6AddrStrLen - 1) = ip :=
    List.take_of_length_le (Nat.le_sub_one_of_lt hlen)
  obtain ⟨b, hb, hntop⟩ := hcanonical
  rw [hparse] at hb
  obtain rfl := Option.some.inj hb
  refine ⟨(h.toTableInv.withListener h.live port a hlen hnew).1, fun s hs => ?_, fun s hs => ?_⟩
  · rcases List.mem_append.mp hs with hs | hs
    · exact h.wanted s hs
    · obtain rfl := List.mem_singleton.mp hs
      rw [htake]
      exact hip
  · rcases List.mem_append.mp hs with hs | hs
    · rw [listenerIsOurs_congr (withListener_file_of_mem h.live hs)]
      exact h.verified s hs
    · obtain rfl := List.mem_singleton.mp hs
      simp [listenerIsOurs, Listeners.withListener, hntop, htake]

theorem Settled.failed (h : Settled inet port st) {st' : Listeners} (hfailed : Failed st st') :
    Settled inet port st' := by
  obtain ⟨hslots, hfile, hbind, -, -, -⟩ := hfailed.spec
  refine ⟨h.toTableInv.failed hfailed, fun s hs => ?_, fun s hs => ?_⟩
  · rw [targets, hbind]
    exact h.wanted s (hslots ▸ hs)
  · rw [listenerIsOurs_congr (hfile s.fd)]
    exact h.verified s (hslots ▸ hs)

def Binds (outcome : ℕ → IpAddr → ListenOutcome) (bindable : IpAddr → Bool) : Prop :=
  ∀ k a, outcome k a = .ok ↔ bindable a = true

/-- What is true of the state after some of the targets have been seen to. -/
structure Progress (inet : InetText) (port : Port) (bindable : IpAddr → Bool)
    (done : List (List UInt8)) (st st' : Listeners) : Prop where
  settled : Settled inet port st'
  bindAddrs : st'.bindAddrs = st.bindAddrs
  running : st'.serverRunning = st.serverRunning
  refused : st'.refused = st.refused
  mono : st.addrs ⊆ st'.addrs
  bound : ∀ ip ∈ done, ∀ a, inet.parse ip = some a → bindable a = true → ip ∈ st'.addrs

section

variable {outcome : ℕ → IpAddr → ListenOutcome} {bindable : IpAddr → Bool}

theorem Settled.addMissing (h : Settled inet port st) (hbinds : Binds outcome bindable)
    {ip : List UInt8} (hip : ip ∈ st.targets) (hlen : ip.length < inet6AddrStrLen)
    (hcanonical : inet.Canonical ip) :
    Progress inet port bindable [ip] st (st.addMissing inet port outcome ip) := by
  rw [Listeners.addMissing]
  by_cases hmem : addrInList ip st.addrs = true
  · rw [if_pos hmem]
    refine ⟨h, rfl, rfl, rfl, List.Subset.refl _, fun ip' hip' _ _ _ => ?_⟩
    obtain rfl := List.mem_singleton.mp hip'
    exact addrInList_iff.mp hmem
  · rw [if_neg hmem]
    rw [addrInList_iff] at hmem
    rcases addListenerForIp_cases outcome ip with
      ⟨hfull, -⟩ | ⟨-, ⟨a, hparse, -, heq⟩ | ⟨hnot, hfailed⟩⟩
    · exact absurd (h.room hip hmem) (Nat.not_lt_of_le hfull)
    · rw [heq]
      refine ⟨h.withListener hip hlen hmem hcanonical hparse, rfl, rfl, rfl, ?_,
        fun ip' hip' _ _ _ => ?_⟩
      · rw [addrs, addrs, Listeners.withListener, List.map_append]
        exact List.subset_append_left _ _
      · obtain rfl := List.mem_singleton.mp hip'
        rw [addrs, Listeners.withListener, List.map_append]
        refine List.mem_append_right _ ?_
        simp [List.take_of_length_le (Nat.le_sub_one_of_lt hlen)]
    · obtain ⟨hslots, -, hbind, hrunning, -, hrefused⟩ := hfailed.spec
      refine ⟨h.failed hfailed, hbind, hrunning, hrefused, ?_, fun ip' hip' a hparse ha => ?_⟩
      · rw [addrs, addrs, hslots]
        exact List.Subset.refl _
      · obtain rfl := List.mem_singleton.mp hip'
        exact absurd ((hbinds _ a).mpr ha) (hnot a hparse)

theorem Progress.trans {done done' : List (List UInt8)} {st₁ st₂ : Listeners}
    (h : Progress inet port bindable done st st₁)
    (h' : Progress inet port bindable done' st₁ st₂) :
    Progress inet port bindable (done ++ done') st st₂ where
  settled := h'.settled
  bindAddrs := h'.bindAddrs.trans h.bindAddrs
  running := h'.running.trans h.running
  refused := h'.refused.trans h.refused
  mono := List.Subset.trans h.mono h'.mono
  bound ip hip a hparse ha := by
    rcases List.mem_append.mp hip with hip | hip
    · exact h'.mono (h.bound ip hip a hparse ha)
    · exact h'.bound ip hip a hparse ha

theorem Settled.foldl_addMissing (h : Settled inet port st) (hbinds : Binds outcome bindable)
    {l : List (List UInt8)} (hl : ∀ ip ∈ l, ip ∈ st.targets)
    (hlen : ∀ ip ∈ l, ip.length < inet6AddrStrLen) (hcanonical : ∀ ip ∈ l, inet.Canonical ip) :
    Progress inet port bindable l st (l.foldl (Listeners.addMissing inet port outcome) st) := by
  induction l generalizing st with
  | nil => exact ⟨h, rfl, rfl, rfl, List.Subset.refl _, by rintro ip ⟨⟩⟩
  | cons ip l ih =>
      have hhead := h.addMissing hbinds (hl ip List.mem_cons_self) (hlen ip List.mem_cons_self)
        (hcanonical ip List.mem_cons_self)
      refine hhead.trans (ih hhead.settled (fun ip' hip' => ?_)
        (fun ip' hip' => hlen ip' (List.mem_cons_of_mem _ hip'))
        fun ip' hip' => hcanonical ip' (List.mem_cons_of_mem _ hip'))
      rw [targets, hhead.bindAddrs]
      exact hl ip' (List.mem_cons_of_mem _ hip')

theorem TableInv.converges (h : TableInv st) (hrunning : st.serverRunning = true)
    (hbinds : Binds outcome bindable) (hcanonical : ∀ ip ∈ st.targets, inet.Canonical ip) :
    Progress inet port bindable st.targets { st with slots := [] }
      (st.reconcileListeners inet port outcome) := by
  obtain ⟨htable, hspec⟩ := pruned_spec inet port st.bindAddrs h
  have hsettled : Settled inet port (pruned inet port st.bindAddrs [] st.slots st) :=
    ⟨htable, fun s hs => wanted_iff.mp (hspec s hs).2.1, fun s hs => (hspec s hs).2.2.2⟩
  have hshort : ∀ ip ∈ st.targets, ip.length < inet6AddrStrLen := by
    intro ip hip
    rcases List.mem_cons.mp hip with rfl | hip
    · decide
    · rcases List.mem_cons.mp hip with rfl | hip
      · decide
      · exact h.short ip hip
  have hall := hsettled.foldl_addMissing (l := st.targets) hbinds (fun ip hip => hip) hshort
    hcanonical
  rw [reconcileListeners, if_pos hrunning]
  dsimp only
  rw [pruneLoop_eq h]
  exact ⟨hall.settled, hall.bindAddrs, hall.running, hall.refused, List.nil_subset _, hall.bound⟩

/-- The table and what is open are as before, and no descriptor of the table has been closed. -/
structure Untouched (st st' : Listeners) : Prop where
  slots : st'.slots = st.slots
  file : ∀ fd, st'.fds.file fd = st.fds.file fd
  bindAddrs : st'.bindAddrs = st.bindAddrs
  refused : st'.refused = st.refused
  closes : ∃ l, st'.closes = st.closes ++ l ∧ ∀ c ∈ l, c.1 ∉ st.slots.map ListenerSlot.fd

theorem Untouched.refl (st : Listeners) : Untouched st st :=
  ⟨rfl, fun _ => rfl, rfl, rfl, [], (List.append_nil _).symm, by rintro c ⟨⟩⟩

theorem Untouched.trans {st₁ st₂ : Listeners} (h : Untouched st st₁) (h' : Untouched st₁ st₂) :
    Untouched st st₂ where
  slots := h'.slots.trans h.slots
  file fd := (h'.file fd).trans (h.file fd)
  bindAddrs := h'.bindAddrs.trans h.bindAddrs
  refused := h'.refused.trans h.refused
  closes := by
    obtain ⟨l, hl, hnot⟩ := h.closes
    obtain ⟨l', hl', hnot'⟩ := h'.closes
    refine ⟨l ++ l', by rw [hl', hl, List.append_assoc], fun c hc => ?_⟩
    rcases List.mem_append.mp hc with hc | hc
    · exact hnot c hc
    · rw [← h.slots]
      exact hnot' c hc

theorem Live.untouched (h : st.Live) {st' : Listeners} (hfailed : Failed st st') :
    Untouched st st' := by
  obtain ⟨hslots, hfile, hbind, -, -, hrefused⟩ := hfailed.spec
  refine ⟨hslots, hfile, hbind, hrefused, ?_⟩
  cases hfailed with
  | spelling | noSocket => exact (Untouched.refl st).closes
  | closed name =>
      refine ⟨_, rfl, fun c hc hmem => ?_⟩
      obtain rfl := List.mem_singleton.mp hc
      obtain ⟨s, hs, hfd⟩ := List.mem_map.mp hmem
      exact lowest_fresh h hs hfd

theorem Settled.addMissing_untouched (h : Settled inet port st) (hbinds : Binds outcome bindable)
    {ip : List UInt8} (hip : ip ∈ st.targets)
    (hbound : ∀ a, inet.parse ip = some a → bindable a = true → ip ∈ st.addrs) :
    Settled inet port (st.addMissing inet port outcome ip) ∧
      Untouched st (st.addMissing inet port outcome ip) ∧
      ((∀ a, inet.parse ip = some a → bindable a = true) →
        st.addMissing inet port outcome ip = st) := by
  rw [Listeners.addMissing]
  by_cases hmem : addrInList ip st.addrs = true
  · rw [if_pos hmem]
    exact ⟨h, .refl st, fun _ => rfl⟩
  · rw [if_neg hmem]
    rw [addrInList_iff] at hmem
    rcases addListenerForIp_cases outcome ip with
      ⟨hfull, -⟩ | ⟨-, ⟨a, hparse, hok, -⟩ | ⟨-, hfailed⟩⟩
    · exact absurd (h.room hip hmem) (Nat.not_lt_of_le hfull)
    · exact absurd (hbound a hparse ((hbinds _ a).mp hok)) hmem
    · refine ⟨h.failed hfailed, h.live.untouched hfailed, fun hall => ?_⟩
      -- a text that is read as an address would be served
      have hnone : inet.parse ip = none := by
        cases hparse : inet.parse ip with
        | none => rfl
        | some a => exact absurd (hbound a hparse (hall a hparse)) hmem
      rw [addListenerForIp, if_neg (Nat.not_le_of_lt (h.room hip hmem)), hnone]

/-- A settled table is left alone; attempts are made only for what is missing. -/
theorem Settled.reconcile_untouched (h : Settled inet port st) (hbinds : Binds outcome bindable)
    (hbound : ∀ ip ∈ st.targets, ∀ a, inet.parse ip = some a → bindable a = true → ip ∈ st.addrs) :
    Untouched st (st.reconcileListeners inet port outcome) ∧
      ((∀ ip ∈ st.targets, ∀ a, inet.parse ip = some a → bindable a = true) →
        st.reconcileListeners inet port outcome = st) := by
  have hkeeps : ∀ s ∈ st.slots, keeps inet port st.bindAddrs st.fds s = true := by
    intro s hs
    rw [keeps, Bool.and_eq_true]
    exact ⟨wanted_iff.mpr (h.wanted s hs), h.verified s hs⟩
  have hdrops : ∀ s ∈ st.slots, ¬drops inet port st.bindAddrs st.fds s = true := by
    intro s hs hdrop
    rw [drops, wanted_iff.mpr (h.wanted s hs)] at hdrop
    cases hdrop
  have hpruned : pruned inet port st.bindAddrs [] st.slots st = st := by
    rw [pruned, List.filter_eq_self.mpr hkeeps, List.filter_eq_nil_iff.mpr hdrops]
    simp [closeFds]
  have hfold : ∀ (l : List (List UInt8)) (st₁ : Listeners), Settled inet port st₁ →
      Untouched st st₁ → (∀ ip ∈ l, ip ∈ st.targets) →
        Untouched st (l.foldl (Listeners.addMissing inet port outcome) st₁) ∧
          ((∀ ip ∈ l, ∀ a, inet.parse ip = some a → bindable a = true) →
            l.foldl (Listeners.addMissing inet port outcome) st₁ = st₁) := by
    intro l
    induction l with
    | nil => exact fun st₁ _ hsame _ => ⟨hsame, fun _ => rfl⟩
    | cons ip l ih =>
        intro st₁ hsettled hsame hl
        have htargets : ip ∈ st₁.targets := by
          rw [targets, hsame.bindAddrs]
          exact hl ip List.mem_cons_self
        have haddrs : st₁.addrs = st.addrs := by rw [addrs, addrs, hsame.slots]
        obtain ⟨hsettled', hstep, hnone⟩ := hsettled.addMissing_untouched hbinds htargets
          fun a ha hbind => haddrs ▸ hbound ip (hl ip List.mem_cons_self) a ha hbind
        obtain ⟨hrest, hrestNone⟩ := ih _ hsettled' (hsame.trans hstep)
          fun ip' hip' => hl ip' (List.mem_cons_of_mem _ hip')
        refine ⟨hrest, fun hall => ?_⟩
        rw [List.foldl_cons, hrestNone fun ip' hip' => hall ip' (List.mem_cons_of_mem _ hip')]
        exact hnone (hall ip List.mem_cons_self)
  unfold reconcileListeners
  split
  · dsimp only
    rw [pruneLoop_eq h.toTableInv, hpruned]
    exact hfold st.targets st h (.refl st) fun ip hip => hip
  · exact ⟨.refl st, fun _ => rfl⟩

end

/-! ### Runs -/

theorem TableInv.clear (h : TableInv st) : TableInv { st with slots := [] } :=
  ⟨List.nodup_nil, List.nodup_nil, h.short, h.few⟩

theorem closeAll_bindAddrs (st : Listeners) : st.closeAll.bindAddrs = st.bindAddrs := by
  have hfold : ∀ (l : List ListenerSlot) (st : Listeners),
      (l.foldl (fun st s => st.closeListener s.fd) st).bindAddrs = st.bindAddrs := by
    intro l
    induction l with
    | nil => exact fun _ => rfl
    | cons s l ih => exact fun st => ih (st.closeListener s.fd)
  exact hfold st.slots st

theorem TableInv.closeAll (h : TableInv st) : TableInv st.closeAll := by
  refine ⟨List.nodup_nil, List.nodup_nil, ?_, ?_⟩
  · rw [closeAll_bindAddrs]
    exact h.short
  · rw [closeAll_bindAddrs]
    exact h.few

theorem TableInv.setBindAddrs (h : TableInv st) (addrs : List (List UInt8)) :
    TableInv (st.setBindAddrs addrs) := by
  refine ⟨h.fds, h.addrs, fun ip hip => ?_, ?_⟩
  · obtain ⟨x, -, rfl⟩ := List.mem_map.mp hip
    exact Nat.lt_of_le_of_lt (List.length_take_le _ _) (by decide)
  · rw [Listeners.setBindAddrs, List.length_map]
    exact List.length_take_le _ _

theorem TableInv.step (h : TableInv st) {ev : ListenerEvent} {st' : Listeners}
    (hstep : listenerStep inet port st ev = some st') : TableInv st' := by
  cases ev with
  | start =>
      simp only [listenerStep] at hstep
      split at hstep
      · obtain rfl := Option.some.inj hstep
        exact { h.clear with }
      · cases hstep
  | setBindAddrs addrs =>
      obtain rfl := Option.some.inj hstep
      exact h.setBindAddrs addrs
  | reconcile outcome =>
      simp only [listenerStep] at hstep
      split at hstep
      · obtain rfl := Option.some.inj hstep
        exact h.reconcile outcome
      · cases hstep
  | quitClose | exit =>
      simp only [listenerStep] at hstep
      split at hstep
      · obtain rfl := Option.some.inj hstep
        exact { h.closeAll with }
      · cases hstep
  | startFailed | quit =>
      simp only [listenerStep] at hstep
      split at hstep
      · obtain rfl := Option.some.inj hstep
        exact { h with }
      · cases hstep
  | abort fd =>
      simp only [listenerStep] at hstep
      split at hstep
      · obtain rfl := Option.some.inj hstep
        exact { h with }
      · cases hstep
  | closeFd fd | openFd acceptConn name =>
      obtain rfl := Option.some.inj hstep
      exact { h with }

theorem TableInv.init : TableInv Listeners.init where
  fds := List.nodup_nil
  addrs := List.nodup_nil
  short := nofun
  few := Nat.zero_le _

theorem TableInv.run {evs : List ListenerEvent}
    (hrun : run (listenerStep inet port) Listeners.init evs = some st) : TableInv st :=
  run_invariant (P := TableInv) (fun _ _ _ h hstep => h.step hstep) TableInv.init hrun

end Listeners

open Listeners

/-- From every reachable table one round ends with the wanted addresses that can be bound, each once
and on a verified listener, and never lacks a slot. Another round then leaves the table and what is
open alone, and what it opens and closes again are attempts for addresses that cannot be bound; when
there are none, it changes nothing at all. -/
theorem reconcile_converges {inet : InetText} {port : Port} {evs : List ListenerEvent}
    {st : Listeners} (hrun : run (listenerStep inet port) Listeners.init evs = some st)
    (hrunning : st.serverRunning = true) {outcome : ℕ → IpAddr → ListenOutcome}
    {bindable : IpAddr → Bool} (hbinds : Binds outcome bindable)
    (hdesired : ∀ ip ∈ st.bindAddrs, inet.Canonical ip) (h4 : inet.Canonical loopback4)
    (h6 : inet.Canonical loopback6) :
    let st' := st.reconcileListeners inet port outcome
    let st'' := st'.reconcileListeners inet port outcome
    (∀ s ∈ st'.slots, (isPermanentAddr s.addr = true ∨ s.addr ∈ st.bindAddrs) ∧
        listenerIsOurs inet port st'.fds s = true) ∧
      (st'.slots.map fun s => inet.parse s.addr).Nodup ∧
      (∀ ip ∈ loopback4 :: loopback6 :: st.bindAddrs, ∀ a, inet.parse ip = some a →
        bindable a = true → ip ∈ st'.addrs) ∧
      st'.slots.length ≤ maxListeners ∧ st'.refused = st.refused ∧
      Untouched st' st'' ∧
      ((∀ ip ∈ loopback4 :: loopback6 :: st.bindAddrs, ∀ a, inet.parse ip = some a →
        bindable a = true) → st'' = st') := by
  intro st' st''
  have hcanonical : ∀ ip ∈ st.targets, inet.Canonical ip := by
    intro ip hip
    rcases List.mem_cons.mp hip with rfl | hip
    · exact h4
    · rcases List.mem_cons.mp hip with rfl | hip
      · exact h6
      · exact hdesired ip hip
  obtain ⟨hsettled, hbind, -, hrefused, -, hbound⟩ :=
    (TableInv.run hrun).converges hrunning hbinds hcanonical
  have htargets : st'.targets = st.targets := by
    rw [targets, targets, hbind]
  obtain ⟨hsame, hnothing⟩ := hsettled.reconcile_untouched hbinds fun ip hip =>
    hbound ip (by rw [← htargets]; exact hip)
  refine ⟨fun s hs => ⟨?_, hsettled.verified s hs⟩, ?_, hbound, ?_, hrefused, hsame,
    fun hall => hnothing fun ip hip => hall ip (by rw [htargets] at hip; exact hip)⟩
  · have hwanted := hsettled.wanted s hs
    rw [htargets] at hwanted
    simpa [targets, isPermanentAddr, or_assoc] using hwanted
  · have hinj : ∀ ip ∈ st'.addrs, ∀ ip' ∈ st'.addrs, inet.parse ip = inet.parse ip' → ip = ip' := by
      intro ip hip ip' hip' heq
      refine (hcanonical ip ?_).parse_inj (hcanonical ip' ?_) heq
      · rw [← htargets]
        exact hsettled.addrs_subset hip
      · rw [← htargets]
        exact hsettled.addrs_subset hip'
    have hmap := hsettled.addrs.map_on hinj
    rwa [Listeners.addrs, List.map_map] at hmap
  · have hle := (hsettled.addrs.subperm hsettled.addrs_subset).length_le
    have hfew := hsettled.few
    simp only [targets, List.length_cons, Listeners.addrs, List.length_map] at hle
    have hslots : (st.reconcileListeners inet port outcome).slots.length ≤ maxListeners := by
      unfold maxListeners
      omega
    exact hslots

/-- `192.168.1.5`. -/
def lanAddr : List UInt8 := [49, 57, 50, 46, 49, 54, 56, 46, 49, 46, 53]

/-- `inet_pton` and `inet_ntop` on three addresses. -/
def threeAddrs : InetText where
  v4 ip :=
    if ip = loopback4 then some (octets 127 0 0 1)
    else if ip = lanAddr then some (octets 192 168 1 5)
    else none
  v6 ip :=
    if ip = loopback6 then some ((Vector.replicate 15 0).push 1) else none
  ntop
    | .v4 b => if b = octets 127 0 0 1 then loopback4 else lanAddr
    | .v6 _ => loopback6

def port1080 : Port := ⟨1080, by decide, by decide⟩

def allListen : ℕ → IpAddr → ListenOutcome := fun _ _ => .ok

/-- The listener on the LAN address is closed behind the engine, and its number is reused. -/
def lanLost : List ListenerEvent :=
  [.start, .setBindAddrs [lanAddr], .reconcile allListen, .closeFd 2, .openFd none none]

/-- The LAN address cannot be bound for now, and the socket that was opened for it is closed. -/
def lanUnbindable : ℕ → IpAddr → ListenOutcome := fun _ a =>
  if a = .v4 (octets 192 168 1 5) then .bindFails else .ok

theorem reconcile_converges_lanLost : ∃ st,
    run (listenerStep threeAddrs port1080) Listeners.init lanLost = some st ∧
      let st' := st.reconcileListeners threeAddrs port1080 lanUnbindable
      let st'' := st'.reconcileListeners threeAddrs port1080 lanUnbindable
      (∀ s ∈ st'.slots, (isPermanentAddr s.addr = true ∨ s.addr ∈ st.bindAddrs) ∧
          listenerIsOurs threeAddrs port1080 st'.fds s = true) ∧
        (st'.slots.map fun s => threeAddrs.parse s.addr).Nodup ∧
        (∀ ip ∈ loopback4 :: loopback6 :: st.bindAddrs, ∀ a, threeAddrs.parse ip = some a →
          decide (a ≠ .v4 (octets 192 168 1 5)) = true → ip ∈ st'.addrs) ∧
        st'.slots.length ≤ maxListeners ∧ st'.refused = st.refused ∧ Untouched st' st'' ∧
        ((∀ ip ∈ loopback4 :: loopback6 :: st.bindAddrs, ∀ a, threeAddrs.parse ip = some a →
          decide (a ≠ .v4 (octets 192 168 1 5)) = true) → st'' = st') := by
  obtain ⟨st, hst, hrunning, hbind⟩ : ∃ st,
      run (listenerStep threeAddrs port1080) Listeners.init lanLost = some st ∧
        st.serverRunning = true ∧ st.bindAddrs = [lanAddr] := ⟨_, rfl, rfl, rfl⟩
  have hbinds : Binds lanUnbindable fun a => decide (a ≠ .v4 (octets 192 168 1 5)) := by
    intro k a
    by_cases ha : a = .v4 (octets 192 168 1 5) <;> simp [lanUnbindable, ha]
  refine ⟨st, hst, reconcile_converges hst hrunning hbinds ?_ ⟨_, rfl, by decide⟩
    ⟨_, rfl, by decide⟩⟩
  intro ip hip
  rw [hbind] at hip
  obtain rfl := List.mem_singleton.mp hip
  exact ⟨_, rfl, by decide⟩

end FiveGProxy
