import FiveGProxy.Listeners.Reconcile

/-!
# Who closes a listener

The engine must close every listener that it has opened, and nothing else. `drop_listener_slot` asks
first what stands behind the descriptor. Its check can fail for a listener that is still the
engine's own, which then stays open outside the table; and `socks5_server_quit` and the end of
`listener_task` close every number of the table without the check. `ClosesOwn` says when neither
happens, and in runs of such steps the accounts are kept (`Owned`). An attempt that fails closes the
socket it has opened itself.
-/

namespace FiveGProxy

open Steps

namespace Listeners

variable {inet : InetText} {port : Port} {st : Listeners} {lost : List ℕ}

def serialAt (t : Fds) (fd : ℕ) : Option ℕ := (t.file fd).bind OsFile.serial

def closedSerials (st : Listeners) : List ℕ := st.closes.filterMap fun c => c.2.bind OsFile.serial

def noteLost (st : Listeners) (ev : ListenerEvent) (lost : List ℕ) : List ℕ :=
  match ev with
  | .closeFd fd => (serialAt st.fds fd).toList ++ lost
  | _ => lost

/-- The accounts of the listeners: `lost` are those that were closed behind the engine. -/
structure Owned (st : Listeners) (lost : List ℕ) : Prop where
  placed : ∀ n < st.opened,
    (∃ s ∈ st.slots, serialAt st.fds s.fd = some n) ∨ n ∈ st.closedSerials ∨ n ∈ lost
  kept : ∀ fd n, serialAt st.fds fd = some n → fd ∈ st.slots.map ListenerSlot.fd
  once : st.closedSerials.Nodup
  own : ∀ c ∈ st.closes, (c.2.bind OsFile.serial).isSome = true

/-- What the check says of the descriptor is right, as far as the round acts on it. -/
def Identified (inet : InetText) (port : Port) (st : Listeners) (s : ListenerSlot) : Prop :=
  if (serialAt st.fds s.fd).isSome then listenerIsOurs inet port st.fds s = true
  else listenerIsOurs inet port st.fds s = true → wanted st.bindAddrs s.addr = true

instance (s : ListenerSlot) : Decidable (Identified inet port st s) :=
  inferInstanceAs (Decidable (ite _ _ _))

/-- A round finds every own listener verified and no other descriptor that it would close; the
closing of the whole table finds an own listener behind every descriptor. -/
def ClosesOwn (inet : InetText) (port : Port) (st : Listeners) : ListenerEvent → Prop
  | .reconcile _ => st.serverRunning = true → ∀ s ∈ st.slots, Identified inet port st s
  | .quitClose | .exit => ∀ s ∈ st.slots, (serialAt st.fds s.fd).isSome = true
  | _ => True

instance : (ev : ListenerEvent) → Decidable (ClosesOwn inet port st ev)
  | .reconcile _ => inferInstanceAs
      (Decidable (st.serverRunning = true → ∀ s ∈ st.slots, Identified inet port st s))
  | .quitClose | .exit =>
      inferInstanceAs (Decidable (∀ s ∈ st.slots, (serialAt st.fds s.fd).isSome = true))
  | .start | .setBindAddrs _ | .startFailed | .quit | .abort _ | .closeFd _ | .openFd _ _ =>
      inferInstanceAs (Decidable True)

/-- `Owned`, with what one step hands to the next. -/
structure OwnedInv (st : Listeners) (lost : List ℕ) : Prop extends Owned st lost where
  fresh : ∀ fd n, serialAt st.fds fd = some n → n < st.opened
  unique : ∀ fd fd' n, serialAt st.fds fd = some n → serialAt st.fds fd' = some n → fd = fd'
  apart : ∀ fd n, serialAt st.fds fd = some n → n ∉ st.closedSerials
  past : ∀ n ∈ st.closedSerials, n < st.opened
  idle : st.thread = false → st.slots = []

theorem OwnedInv.init : OwnedInv Listeners.init [] where
  placed _ hn := absurd hn (Nat.not_lt_zero _)
  kept := by rintro _ _ ⟨⟩
  once := List.nodup_nil
  own := by rintro _ ⟨⟩
  fresh := by rintro _ _ ⟨⟩
  unique := by rintro _ _ _ ⟨⟩
  apart := by rintro _ _ ⟨⟩
  past := by rintro _ ⟨⟩
  idle _ := rfl

/-! ### Closing -/

theorem serialAt_closeFds (t : Fds) (l : List ListenerSlot) (fd : ℕ) :
    serialAt (closeFds t l) fd =
      if fd ∈ l.map ListenerSlot.fd then none else serialAt t fd := by
  unfold serialAt
  rw [closeFds_file]
  split <;> rfl

/-- The entries of `kept` stay in the table and those of `gone` are closed. -/
def close (st : Listeners) (kept gone : List ListenerSlot) : Listeners :=
  { st with
    slots := kept
    fds := closeFds st.fds gone
    closes := st.closes ++ gone.map fun s => (s.fd, st.fds.file s.fd) }

theorem closedSerials_close (st : Listeners) (kept gone : List ListenerSlot) :
    (st.close kept gone).closedSerials =
      st.closedSerials ++ (gone.map ListenerSlot.fd).filterMap (serialAt st.fds) := by
  rw [closedSerials, close, List.filterMap_append, List.filterMap_map, List.filterMap_map]
  rfl

/-- Every own listener of the table stays in it or is closed, and nothing else is closed. -/
theorem OwnedInv.close (h : OwnedInv st lost) {kept gone : List ListenerSlot}
    (hnodup : (gone.map ListenerSlot.fd).Nodup)
    (hown : ∀ s ∈ gone, (serialAt st.fds s.fd).isSome = true)
    (hall : ∀ s ∈ st.slots, (serialAt st.fds s.fd).isSome = true → s ∈ kept ∨ s ∈ gone)
    (hidle : st.slots = [] → kept = []) : OwnedInv (st.close kept gone) lost := by
  have hopen : ∀ fd n, serialAt (closeFds st.fds gone) fd = some n →
      fd ∉ gone.map ListenerSlot.fd ∧ serialAt st.fds fd = some n := by
    intro fd n hfd
    rw [serialAt_closeFds] at hfd
    split at hfd
    · cases hfd
    · exact ⟨‹_›, hfd⟩
  have hgone : ∀ n, n ∈ (gone.map ListenerSlot.fd).filterMap (serialAt st.fds) ↔
      ∃ fd ∈ gone.map ListenerSlot.fd, serialAt st.fds fd = some n := fun n =>
    List.mem_filterMap
  constructor
  · constructor
    · intro n hn
      rw [closedSerials_close, List.mem_append]
      rcases h.placed n hn with ⟨s, hs, hserial⟩ | hclosed | hlost
      · by_cases hmem : s.fd ∈ gone.map ListenerSlot.fd
        · exact .inr (.inl (.inr ((hgone n).mpr ⟨_, hmem, hserial⟩)))
        · refine .inl ⟨s, ?_, ?_⟩
          · refine (hall s hs (by rw [hserial]; rfl)).resolve_right fun hsgone => ?_
            exact hmem (List.mem_map_of_mem hsgone)
          · rw [Listeners.close, serialAt_closeFds, if_neg hmem]
            exact hserial
      · exact .inr (.inl (.inl hclosed))
      · exact .inr (.inr hlost)
    · intro fd n hfd
      obtain ⟨hnot, hserial⟩ := hopen fd n hfd
      obtain ⟨s, hs, rfl⟩ := List.mem_map.mp (h.kept fd n hserial)
      rcases hall s hs (by rw [hserial]; rfl) with hkept | hsgone
      · exact List.mem_map_of_mem hkept
      · exact absurd (List.mem_map_of_mem hsgone) hnot
    · rw [closedSerials_close]
      refine List.nodup_append'.mpr ⟨h.once, ?_, ?_⟩
      · exact hnodup.filterMap fun fd fd' n hfd hfd' => h.unique fd fd' n hfd hfd'
      · intro n hn hn'
        obtain ⟨fd, -, hserial⟩ := (hgone n).mp hn'
        exact h.apart fd n hserial hn
    · intro c hc
      rcases List.mem_append.mp hc with hc | hc
      · exact h.own c hc
      · obtain ⟨s, hs, rfl⟩ := List.mem_map.mp hc
        exact hown s hs
  · intro fd n hfd
    exact h.fresh fd n (hopen fd n hfd).2
  · intro fd fd' n hfd hfd'
    exact h.unique fd fd' n (hopen fd n hfd).2 (hopen fd' n hfd').2
  · intro fd n hfd
    obtain ⟨hnot, hserial⟩ := hopen fd n hfd
    rw [closedSerials_close, List.mem_append]
    rintro (hclosed | hclosed)
    · exact h.apart fd n hserial hclosed
    · obtain ⟨fd', hmem, hserial'⟩ := (hgone n).mp hclosed
      exact hnot (h.unique fd fd' n hserial hserial' ▸ hmem)
  · intro n hn
    rw [closedSerials_close, List.mem_append] at hn
    rcases hn with hn | hn
    · exact h.past n hn
    · obtain ⟨fd, -, hserial⟩ := (hgone n).mp hn
      exact h.fresh fd n hserial
  · exact fun hthread => hidle (h.idle hthread)

theorem closeAll_eq (h : TableInv st) : st.closeAll = st.close [] st.slots := by
  rw [closeAll, foldl_closeListener _ _ h.fds]
  rfl

theorem OwnedInv.closeAll (h : OwnedInv st lost) (htable : TableInv st)
    (hcond : ∀ s ∈ st.slots, (serialAt st.fds s.fd).isSome = true) :
    OwnedInv st.closeAll lost := by
  rw [closeAll_eq htable]
  exact h.close htable.fds hcond (fun s hs _ => .inr hs) fun _ => rfl

/-! ### One round -/

theorem OwnedInv.pruned (h : OwnedInv st lost) (htable : TableInv st)
    (hcond : ∀ s ∈ st.slots, Identified inet port st s) :
    OwnedInv (pruned inet port st.bindAddrs [] st.slots st) lost := by
  refine h.close ?_ (fun s hs => ?_) (fun s hs hserial => ?_) fun hnil => ?_
  · exact htable.fds.sublist (List.filter_sublist.map _)
  · obtain ⟨hmem, hdrop⟩ := List.mem_filter.mp hs
    rw [drops, Bool.and_eq_true, Bool.not_eq_true'] at hdrop
    have hid := hcond s hmem
    unfold Identified at hid
    split at hid
    · assumption
    · rw [hid hdrop.2] at hdrop
      cases hdrop.1
  · have hid := hcond s hs
    rw [Identified, if_pos hserial] at hid
    cases hwanted : wanted st.bindAddrs s.addr with
    | true => exact .inl (List.mem_filter.mpr ⟨hs, by rw [keeps, hwanted, hid]; rfl⟩)
    | false => exact .inr (List.mem_filter.mpr ⟨hs, by rw [drops, hwanted, hid]; rfl⟩)
  · rw [hnil]
    rfl

theorem serialAt_set (t : Fds) (fd : ℕ) (f : OsFile) (fd' : ℕ) :
    serialAt (t.set fd f) fd' = if fd' = fd then f.serial else serialAt t fd' := by
  unfold serialAt
  rw [Fds.set_file, Function.update_apply]
  split <;> rfl

theorem serialAt_lowest (t : Fds) : serialAt t t.lowest = none := by
  rw [serialAt, t.file_lowest]
  rfl

theorem OwnedInv.withListener (h : OwnedInv st lost) (hthread : st.thread = true) (port : Port)
    (ip : List UInt8) (a : IpAddr) : OwnedInv (st.withListener port ip a) lost := by
  have hserial : ∀ fd, serialAt (st.withListener port ip a).fds fd =
      if fd = st.fds.lowest then some st.opened else serialAt st.fds fd := fun fd =>
    serialAt_set _ _ _ _
  have hold : ∀ fd n, serialAt (st.withListener port ip a).fds fd = some n →
      fd = st.fds.lowest ∧ n = st.opened ∨ serialAt st.fds fd = some n := by
    intro fd n hfd
    rw [hserial] at hfd
    split at hfd
    · exact .inl ⟨‹_›, (Option.some.inj hfd).symm⟩
    · exact .inr hfd
  constructor
  · constructor
    · intro n hn
      rcases Nat.lt_succ_iff_lt_or_eq.mp hn with hlt | rfl
      · refine (h.placed n hlt).imp_left ?_
        rintro ⟨s, hs, hn⟩
        refine ⟨s, List.mem_append_left _ hs, ?_⟩
        rw [hserial, if_neg, hn]
        intro hlow
        rw [hlow, serialAt_lowest] at hn
        cases hn
      · refine .inl ⟨_, List.mem_append_right _ (List.mem_singleton_self _), ?_⟩
        rw [hserial, if_pos rfl]
    · intro fd n hfd
      rw [Listeners.withListener, List.map_append, List.mem_append]
      rcases hold fd n hfd with ⟨rfl, -⟩ | hfd
      · exact .inr (List.mem_singleton_self _)
      · exact .inl (h.kept fd n hfd)
    · exact h.once
    · exact h.own
  · intro fd n hfd
    rcases hold fd n hfd with ⟨-, rfl⟩ | hfd
    · exact Nat.lt_succ_self _
    · exact Nat.lt_succ_of_lt (h.fresh fd n hfd)
  · intro fd fd' n hfd hfd'
    rcases hold fd n hfd with ⟨rfl, rfl⟩ | hfd <;> rcases hold fd' _ hfd' with ⟨rfl, hn⟩ | hfd'
    · rfl
    · exact absurd (h.fresh fd' _ hfd') (Nat.lt_irrefl _)
    · exact absurd (h.fresh fd n hfd) (hn ▸ Nat.lt_irrefl _)
    · exact h.unique fd fd' n hfd hfd'
  · intro fd n hfd
    rcases hold fd n hfd with ⟨-, rfl⟩ | hfd
    · exact fun hmem => Nat.lt_irrefl _ (h.past _ hmem)
    · exact h.apart fd n hfd
  · exact fun n hn => Nat.lt_succ_of_lt (h.past n hn)
  · intro hfalse
    rw [Listeners.withListener, hthread] at hfalse
    cases hfalse

theorem OwnedInv.withClosed (h : OwnedInv st lost) (name : IpAddr × ℕ) :
    OwnedInv (st.withClosed name) lost := by
  have hserial : ∀ fd, serialAt (st.withClosed name).fds fd = serialAt st.fds fd := by
    intro fd
    rw [serialAt, serialAt, withClosed_file]
  have hclosed : (st.withClosed name).closedSerials = st.closedSerials ++ [st.opened] := by
    rw [closedSerials, Listeners.withClosed, List.filterMap_append]
    rfl
  constructor
  · constructor
    · intro n hn
      rw [hclosed, List.mem_append]
      rcases Nat.lt_succ_iff_lt_or_eq.mp hn with hlt | rfl
      · rcases h.placed n hlt with ⟨s, hs, hsn⟩ | hold | hlost
        · exact .inl ⟨s, hs, (hserial s.fd).trans hsn⟩
        · exact .inr (.inl (.inl hold))
        · exact .inr (.inr hlost)
      · exact .inr (.inl (.inr (List.mem_singleton_self _)))
    · intro fd n hfd
      exact h.kept fd n ((hserial fd).symm.trans hfd)
    · rw [hclosed]
      refine List.nodup_append'.mpr ⟨h.once, List.nodup_singleton _, ?_⟩
      intro n hn hn'
      exact absurd (h.past n hn) (by rw [List.mem_singleton.mp hn']; exact Nat.lt_irrefl _)
    · intro c hc
      rcases List.mem_append.mp hc with hc | hc
      · exact h.own c hc
      · rw [List.mem_singleton.mp hc]
        rfl
  · intro fd n hfd
    exact Nat.lt_succ_of_lt (h.fresh fd n ((hserial fd).symm.trans hfd))
  · intro fd fd' n hfd hfd'
    exact h.unique fd fd' n ((hserial fd).symm.trans hfd) ((hserial fd').symm.trans hfd')
  · intro fd n hfd
    have hold := (hserial fd).symm.trans hfd
    rw [hclosed, List.mem_append]
    rintro (hmem | hmem)
    · exact h.apart fd n hold hmem
    · exact absurd (h.fresh fd n hold) (by rw [List.mem_singleton.mp hmem]; exact Nat.lt_irrefl _)
  · intro n hn
    rw [hclosed, List.mem_append] at hn
    rcases hn with hn | hn
    · exact Nat.lt_succ_of_lt (h.past n hn)
    · rw [List.mem_singleton.mp hn]
      exact Nat.lt_succ_self _
  · exact h.idle

theorem OwnedInv.failed (h : OwnedInv st lost) {st' : Listeners} (hfailed : Failed st st') :
    OwnedInv st' lost := by
  cases hfailed with
  | spelling => exact h
  | noSocket => exact { h with }
  | closed name => exact h.withClosed name

theorem OwnedInv.addMissing (h : OwnedInv st lost) (hthread : st.thread = true)
    (outcome : ℕ → IpAddr → ListenOutcome) (ip : List UInt8) :
    OwnedInv (st.addMissing inet port outcome ip) lost ∧
      (st.addMissing inet port outcome ip).thread = true := by
  rw [Listeners.addMissing]
  split
  · exact ⟨h, hthread⟩
  · rcases addListenerForIp_cases outcome ip with ⟨-, heq⟩ | ⟨-, ⟨a, -, -, heq⟩ | ⟨-, hfailed⟩⟩
    · rw [heq]
      exact ⟨{ h with }, hthread⟩
    · rw [heq]
      exact ⟨h.withListener hthread port ip a, hthread⟩
    · exact ⟨h.failed hfailed, hfailed.spec.2.2.2.2.1.trans hthread⟩

theorem OwnedInv.foldl_addMissing (h : OwnedInv st lost) (hthread : st.thread = true)
    (outcome : ℕ → IpAddr → ListenOutcome) (l : List (List UInt8)) :
    OwnedInv (l.foldl (Listeners.addMissing inet port outcome) st) lost := by
  induction l generalizing st with
  | nil => exact h
  | cons ip l ih =>
      obtain ⟨hip, hthread'⟩ := h.addMissing hthread outcome ip
      exact ih hip hthread'

theorem OwnedInv.reconcile (h : OwnedInv st lost) (htable : TableInv st)
    (hthread : st.thread = true) (outcome : ℕ → IpAddr → ListenOutcome)
    (hcond : ClosesOwn inet port st (.reconcile outcome)) :
    OwnedInv (st.reconcileListeners inet port outcome) lost := by
  unfold reconcileListeners
  split
  · dsimp only
    rw [pruneLoop_eq htable]
    exact (h.pruned htable (hcond ‹_›)).foldl_addMissing hthread outcome
      (loopback4 :: loopback6 :: st.bindAddrs)
  · exact h

/-! ### The environment -/

theorem OwnedInv.congr (h : OwnedInv st lost) {t : Fds}
    (heq : ∀ fd, serialAt t fd = serialAt st.fds fd) : OwnedInv { st with fds := t } lost where
  placed n hn := by
    refine (h.placed n hn).imp_left ?_
    rintro ⟨s, hs, hserial⟩
    exact ⟨s, hs, (heq s.fd).trans hserial⟩
  kept fd n hfd := h.kept fd n ((heq fd).symm.trans hfd)
  once := h.once
  own := h.own
  fresh fd n hfd := h.fresh fd n ((heq fd).symm.trans hfd)
  unique fd fd' n hfd hfd' :=
    h.unique fd fd' n ((heq fd).symm.trans hfd) ((heq fd').symm.trans hfd')
  apart fd n hfd := h.apart fd n ((heq fd).symm.trans hfd)
  past := h.past
  idle := h.idle

theorem OwnedInv.closeFd (h : OwnedInv st lost) (fd : ℕ) :
    OwnedInv { st with fds := st.fds.close fd } (noteLost st (.closeFd fd) lost) := by
  have hserial : ∀ fd', serialAt (st.fds.close fd) fd' =
      if fd' = fd then none else serialAt st.fds fd' := by
    intro fd'
    unfold serialAt
    rw [Fds.close_file, Function.update_apply]
    split <;> rfl
  have hold : ∀ fd' n, serialAt (st.fds.close fd) fd' = some n → serialAt st.fds fd' = some n := by
    intro fd' n hfd'
    rw [hserial] at hfd'
    split at hfd'
    · cases hfd'
    · exact hfd'
  constructor
  · constructor
    · intro n hn
      rcases h.placed n hn with ⟨s, hs, hn⟩ | hclosed | hlost
      · by_cases hfd : s.fd = fd
        · refine .inr (.inr (List.mem_append_left _ ?_))
          rw [← hfd, hn]
          exact List.mem_singleton_self _
        · refine .inl ⟨s, hs, ?_⟩
          rw [hserial, if_neg hfd, hn]
      · exact .inr (.inl hclosed)
      · exact .inr (.inr (List.mem_append_right _ hlost))
    · exact fun fd' n hfd' => h.kept fd' n (hold fd' n hfd')
    · exact h.once
    · exact h.own
  · exact fun fd' n hfd' => h.fresh fd' n (hold fd' n hfd')
  · exact fun fd₁ fd₂ n h₁ h₂ => h.unique fd₁ fd₂ n (hold fd₁ n h₁) (hold fd₂ n h₂)
  · exact fun fd' n hfd' => h.apart fd' n (hold fd' n hfd')
  · exact h.past
  · exact h.idle

/-! ### Runs -/

theorem OwnedInv.step (h : OwnedInv st lost) (htable : TableInv st) {ev : ListenerEvent}
    (hcond : ClosesOwn inet port st ev) {st' : Listeners}
    (hstep : listenerStep inet port st ev = some st') : OwnedInv st' (noteLost st ev lost) := by
  cases ev with
  | start =>
      simp only [listenerStep] at hstep
      split at hstep
      · rename_i hstopped
        obtain rfl := Option.some.inj hstep
        have hnil := h.idle hstopped.2.1
        rw [← hnil]
        exact { h with idle := fun _ => hnil }
      · cases hstep
  | setBindAddrs addrs =>
      obtain rfl := Option.some.inj hstep
      exact { h with }
  | reconcile outcome =>
      simp only [listenerStep] at hstep
      split at hstep
      · obtain rfl := Option.some.inj hstep
        exact h.reconcile htable ‹_› outcome hcond
      · cases hstep
  | quitClose =>
      simp only [listenerStep] at hstep
      split at hstep
      · obtain rfl := Option.some.inj hstep
        exact { h.closeAll htable hcond with }
      · cases hstep
  | exit =>
      simp only [listenerStep] at hstep
      split at hstep
      · obtain rfl := Option.some.inj hstep
        exact { h.closeAll htable hcond with idle := fun _ => rfl }
      · cases hstep
  | startFailed =>
      simp only [listenerStep] at hstep
      split at hstep
      · rename_i hempty
        obtain rfl := Option.some.inj hstep
        exact { h with idle := fun _ => hempty.2 }
      · cases hstep
  | quit =>
      simp only [listenerStep] at hstep
      split at hstep
      · obtain rfl := Option.some.inj hstep
        exact { h with }
      · cases hstep
  | abort fd =>
      simp only [listenerStep] at hstep
      split at hstep
      · rename_i f hfile
        obtain rfl := Option.some.inj hstep
        refine h.congr fun fd' => ?_
        rw [serialAt_set]
        split
        · rw [‹fd' = fd›, serialAt, hfile]
          rfl
        · rfl
      · cases hstep
  | closeFd fd =>
      obtain rfl := Option.some.inj hstep
      exact h.closeFd fd
  | openFd acceptConn name =>
      obtain rfl := Option.some.inj hstep
      refine h.congr fun fd' => ?_
      rw [serialAt_set]
      split
      · rw [‹fd' = _›, serialAt_lowest]
      · rfl

end Listeners

open Listeners

/-- As long as every round identifies the descriptors of the table and the table is closed with own
listeners only, every socket that `add_listener_for_ip` has opened is in the table, or was closed once
by the engine, or was closed behind it, and the engine closes nothing else. -/
theorem listeners_owned {inet : InetText} {port : Port} {evs : List ListenerEvent}
    {st : Listeners} {lost : List ℕ}
    (hcond : Meets (listenerStep inet port) (Listeners.ClosesOwn inet port) Listeners.init evs)
    (hrun : run (record (listenerStep inet port) noteLost) (Listeners.init, []) evs =
      some (st, lost)) : Owned st lost := by
  have hinv : TableInv st ∧ OwnedInv st lost :=
    record_invariant_of_meets (P := fun st lost => TableInv st ∧ OwnedInv st lost)
      (fun _ _ _ _ h hcond hstep => ⟨h.1.step hstep, h.2.step h.1 hcond hstep⟩)
      ⟨TableInv.init, OwnedInv.init⟩ hcond hrun
  exact hinv.2.toOwned

/-- A listener on the LAN address is lost. The first attempt to bind it again fails and the second
succeeds, and it is closed when the address is no longer wanted. -/
def lanRebound : List ListenerEvent :=
  lanLost ++ [.reconcile lanUnbindable, .reconcile allListen, .setBindAddrs [], .reconcile allListen,
    .quit, .quitClose, .exit]

theorem listeners_owned_lanRebound : ∃ st lost,
    run (record (listenerStep threeAddrs port1080) noteLost) (Listeners.init, []) lanRebound =
      some (st, lost) ∧ st.opened = 5 ∧ Owned st lost := by
  obtain ⟨⟨st, lost⟩, hrun, hopened⟩ := exists_run_of_any (by decide +kernel :
    (run (record (listenerStep threeAddrs port1080) noteLost) (Listeners.init, [])
      lanRebound).any (fun p => decide (p.1.opened = 5)) = true)
  exact ⟨st, lost, hrun, hopened, listeners_owned (by decide +kernel) hrun⟩

/-- The LAN interface goes away and the kernel aborts the listener in place. -/
def lanAborted : List ListenerEvent :=
  [.start, .setBindAddrs [lanAddr], .reconcile allListen, .abort 2, .reconcile lanUnbindable]

/-- `fd00:0::5`, where `inet_ntop` writes `fd00::5`. -/
def respelled : List UInt8 := [102, 100, 48, 48, 58, 48, 58, 58, 53]

/-- `inet_pton` and `inet_ntop` on loopback and on the respelled address. -/
def respelledAddr : InetText where
  v4 ip := if ip = loopback4 then some (octets 127 0 0 1) else none
  v6 ip :=
    if ip = loopback6 then some ((Vector.replicate 15 0).push 1)
    else if ip = respelled then some #v[0xfd, 0, 0, 0, 0, 0, 0, 0, 0, 0, 0, 0, 0, 0, 0, 5]
    else none
  ntop
    | .v4 _ => loopback4
    | .v6 b => if b = (Vector.replicate 15 0).push 1 then loopback6 else [102, 100, 48, 48, 58, 58, 53]

def inUse : ℕ → IpAddr → ListenOutcome := fun k _ => if k < 3 then .ok else .bindFails

/-- An aborted listener stays open outside the table, and so does one on a respelled address, which
cannot be bound again; and the server that quits closes the socket that has taken the number of a lost
listener. -/
theorem aborted_listener_leaks :
    (∃ st lost, run (record (listenerStep threeAddrs port1080) noteLost) (Listeners.init, [])
        lanAborted = some (st, lost) ∧
      serialAt st.fds 2 = some 2 ∧ 2 ∉ st.slots.map ListenerSlot.fd ∧ ¬Owned st lost) ∧
      (∃ st lost, run (record (listenerStep respelledAddr port1080) noteLost) (Listeners.init, [])
          [.start, .setBindAddrs [respelled], .reconcile inUse, .reconcile inUse] = some (st, lost) ∧
        serialAt st.fds 2 = some 2 ∧ 2 ∉ st.slots.map ListenerSlot.fd ∧
        st.closedSerials = [3] ∧ ¬Owned st lost) ∧
      ∃ st lost, run (record (listenerStep threeAddrs port1080) noteLost) (Listeners.init, [])
          (lanLost ++ [.quit, .quitClose]) = some (st, lost) ∧
        (2, some ⟨none, none, none⟩) ∈ st.closes ∧ ¬Owned st lost := by
  refine ⟨?_, ?_, ?_⟩
  · obtain ⟨⟨st, lost⟩, hrun, hopen, hmissing⟩ := exists_run_of_any (by decide +kernel :
      (run (record (listenerStep threeAddrs port1080) noteLost) (Listeners.init, [])
        lanAborted).any (fun p => decide
          (serialAt p.1.fds 2 = some 2 ∧ 2 ∉ p.1.slots.map ListenerSlot.fd)) = true)
    exact ⟨st, lost, hrun, hopen, hmissing, fun h => hmissing (h.kept 2 2 hopen)⟩
  · obtain ⟨⟨st, lost⟩, hrun, hopen, hmissing, hclosed⟩ := exists_run_of_any (by decide +kernel :
      (run (record (listenerStep respelledAddr port1080) noteLost) (Listeners.init, [])
        [.start, .setBindAddrs [respelled], .reconcile inUse, .reconcile inUse]).any (fun p => decide
          (serialAt p.1.fds 2 = some 2 ∧ 2 ∉ p.1.slots.map ListenerSlot.fd ∧
            p.1.closedSerials = [3])) = true)
    exact ⟨st, lost, hrun, hopen, hmissing, hclosed, fun h => hmissing (h.kept 2 2 hopen)⟩
  · obtain ⟨⟨st, lost⟩, hrun, hclosed⟩ := exists_run_of_any (by decide +kernel :
      (run (record (listenerStep threeAddrs port1080) noteLost) (Listeners.init, [])
        (lanLost ++ [.quit, .quitClose])).any (fun p => decide
          ((2, some ⟨none, none, none⟩) ∈ p.1.closes)) = true)
    exact ⟨st, lost, hrun, hclosed, fun h => Bool.false_ne_true (h.own _ hclosed)⟩

end FiveGProxy
