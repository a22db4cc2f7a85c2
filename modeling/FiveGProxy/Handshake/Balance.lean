import FiveGProxy.Handshake.Grammar

/-!
# Setting up a connection is all or nothing

Either everything that was taken for a client is given back, the Java socket before the descriptor
by which it is found, or the connection lives, and its slot owns everything. What a slot owns is
what its finalizer gives back (`mem_udpConnOwned`).
-/

namespace FiveGProxy

open Ledger Steps SlotFields

/-! ### What a slot owns -/

namespace SlotFields

def has (c : SlotFields) : Descriptor → Bool
  | .client => c.clientFd
  | .egress => c.egressFd
  | .relay => c.relayFd

def Owns (c : SlotFields) : Resource → Prop
  | .fd d => c.has d = true
  | .javaSocket => c.egressFd = true
  | .inBuf => c.inBuf = true
  | .outBuf => c.outBuf = true
  | .slot | .quota => True
  | .link w => c.linked = true ∧ w = c.widx
  | .watch d => c.has d = true ∧ c.watched d = true

theorem mem_udpConnOwned {c : SlotFields} {r : Resource} : r ∈ c.udpConnOwned ↔ c.Owns r := by
  cases r with
  | fd d => cases d <;> simp [udpConnOwned, closing, Owns, has]
  | watch d => cases d <;> simp [udpConnOwned, closing, Owns, has]
  | link w => simp [udpConnOwned, closing, Owns]
  | _ => simp [udpConnOwned, closing, Owns]

theorem connOwned_eq {c : SlotFields} (h : c.relayFd = false) : c.connOwned = c.udpConnOwned := by
  simp [connOwned, udpConnOwned, h]

theorem sublist_ite {α : Type*} (b : Bool) (l : List α) : (if b then l else []).Sublist l := by
  cases b
  · exact List.nil_sublist l
  · exact List.Sublist.refl l

theorem sublist_closing (c : SlotFields) (d : Descriptor) :
    (c.closing d).Sublist [.fd d, .watch d] :=
  (sublist_ite (c.watched d) [Resource.watch d]).cons_cons (Resource.fd d)

theorem nodup_udpConnOwned (c : SlotFields) : c.udpConnOwned.Nodup := by
  have hopt : ∀ (b : Bool) {l full : List Resource}, l.Sublist full →
      (if b then l else []).Sublist full :=
    fun b _ _ h => (sublist_ite b _).trans h
  have hlink := sublist_ite c.linked [Resource.link c.widx]
  have hclient := hopt c.clientFd (c.sublist_closing .client)
  have hrelay := hopt c.relayFd (c.sublist_closing .relay)
  have hegress := hopt c.egressFd ((c.sublist_closing .egress).cons_cons .javaSocket)
  have hin := sublist_ite c.inBuf [Resource.inBuf]
  have hout := sublist_ite c.outBuf [Resource.outBuf]
  have hfds := ((hlink.append hclient).append hrelay).append hegress
  have hall := ((hfds.append hin).append hout).append (.refl [Resource.quota, .slot])
  refine List.Sublist.nodup hall ?_
  simp

end SlotFields

/-! ### All or nothing -/

theorem ops_map_release (rs : List Resource) : ops (rs.map release) = rs.map .release := by
  induction rs with
  | nil => rfl
  | cons r rs ih => exact congrArg (Op.release r :: ·) ih

def JavaFirst (l : List (Op Resource)) : Prop :=
  ∃ a b, l = a ++ .release .javaSocket :: b ∧ Op.release (.fd .egress) ∉ a

theorem JavaFirst.cons {l : List (Op Resource)} (h : JavaFirst l) {op : Op Resource}
    (hop : op ≠ .release (.fd .egress)) : JavaFirst (op :: l) := by
  obtain ⟨a, b, rfl, ha⟩ := h
  exact ⟨op :: a, b, rfl, List.not_mem_cons_of_ne_of_not_mem hop.symm ha⟩

/-- Nothing of what was held at the start or was taken is held any more, and nothing was opened
twice. -/
structure GivenBack (start : List Resource) (log : List Effect) : Prop where
  ledger : run step (holding start) (ops log) = some (holding [])
  fresh : ∀ r ∈ start, .acquire r ∉ ops log
  once : ∀ r, (ops log).count (.acquire r) ≤ 1
  javaFirst : .fd .egress ∈ start ∨ .acquire (.fd .egress) ∈ ops log → JavaFirst (ops log)
  unregistered : .register ∉ log

/-- What a live connection of worker `w` owns. -/
def liveResources (w : ℕ) (relay : Bool) : List Resource :=
  [.slot, .quota, .fd .client, .fd .egress, .javaSocket, .inBuf, .outBuf, .link w, .watch .client,
    .watch .egress] ++ if relay then [.fd .relay, .watch .relay] else []

/-- A live connection is registered, nothing has been given back, and its slot owns all that is
held. -/
structure Lives (start : List Resource) (w : ℕ) (relay : Bool) (log : List Effect) : Prop where
  ledger : run step (holding start) (ops log) = some (holding (liveResources w relay))
  registered : log.count .register = 1
  kept : ∀ r, .release r ∉ ops log

def AllOrNothing (start : List Resource) (w : ℕ) (relay : Bool) (log : List Effect) : Prop :=
  GivenBack start log ∨ Lives start w relay log

section

variable {start start' : List Resource} {w : ℕ} {relay : Bool} {log : List Effect} {r : Resource}

theorem GivenBack.acquire (h : GivenBack (r :: start) log) (hr : r ∉ start) :
    GivenBack start (acquire r :: log) where
  ledger := by
    rw [← h.ledger, ← run_cons_eq (step_acquire hr)]
    rfl
  fresh s hs := List.not_mem_cons_of_ne_of_not_mem
    (fun heq => hr (Op.acquire.inj heq ▸ hs)) (h.fresh s (List.mem_cons_of_mem r hs))
  once s := by
    by_cases hs : r = s
    · subst hs
      have hzero := List.count_eq_zero.mpr (h.fresh r List.mem_cons_self)
      have hone : (ops (FiveGProxy.acquire r :: log)).count (.acquire r) =
          (ops log).count (.acquire r) + 1 := List.count_cons_self
      omega
    · have hsame : (ops (FiveGProxy.acquire r :: log)).count (.acquire s) =
          (ops log).count (.acquire s) :=
        List.count_cons_of_ne fun heq => hs (Op.acquire.inj heq)
      exact hsame ▸ h.once s
  javaFirst hopen := by
    refine (h.javaFirst ?_).cons nofun
    rcases hopen with hstart | hlog
    · exact Or.inl (List.mem_cons_of_mem r hstart)
    · rcases List.mem_cons.mp hlog with heq | hlog
      · exact Or.inl (Op.acquire.inj heq ▸ List.mem_cons_self)
      · exact Or.inr hlog
  unregistered := List.not_mem_cons_of_ne_of_not_mem nofun h.unregistered

theorem Lives.acquire (h : Lives (r :: start) w relay log) (hr : r ∉ start) :
    Lives start w relay (acquire r :: log) where
  ledger := by
    rw [← h.ledger, ← run_cons_eq (step_acquire hr)]
    rfl
  registered := by
    have hne : FiveGProxy.acquire r ≠ .register := nofun
    rw [List.count_cons_of_ne hne, h.registered]
  kept s := List.not_mem_cons_of_ne_of_not_mem nofun (h.kept s)

theorem AllOrNothing.acquire (h : AllOrNothing (r :: start) w relay log) (hr : r ∉ start) :
    AllOrNothing start w relay (acquire r :: log) :=
  h.imp (·.acquire hr) (·.acquire hr)

theorem AllOrNothing.other (h : AllOrNothing start w relay log) {e : Effect}
    (he : ∀ op, e ≠ .op op) (hreg : e ≠ .register) : AllOrNothing start w relay (e :: log) := by
  have hops : ops (e :: log) = ops log := by
    cases e with
    | op o => exact absurd rfl (he o)
    | _ => rfl
  rcases h with h | h
  · refine Or.inl ⟨hops ▸ h.ledger, hops ▸ h.fresh, hops ▸ h.once, hops ▸ h.javaFirst, ?_⟩
    exact List.not_mem_cons_of_ne_of_not_mem hreg.symm h.unregistered
  · exact Or.inr ⟨hops ▸ h.ledger, (List.count_cons_of_ne hreg).trans h.registered, hops ▸ h.kept⟩

theorem AllOrNothing.congr (h : AllOrNothing start w relay log)
    (hsame : ∀ r, r ∈ start ↔ r ∈ start') : AllOrNothing start' w relay log := by
  rcases h with h | h
  · refine Or.inl ⟨holding_congr hsame ▸ h.ledger, fun r hr => h.fresh r ((hsame r).mpr hr), h.once,
      fun hopen => h.javaFirst (hopen.imp_left (hsame _).mpr), h.unregistered⟩
  · exact Or.inr ⟨holding_congr hsame ▸ h.ledger, h.registered, h.kept⟩

theorem GivenBack.of_release {rs : List Resource} (hrs : rs.Nodup) (hsame : ∀ r, r ∈ start ↔ r ∈ rs)
    (hjava : .fd .egress ∈ rs → JavaFirst (rs.map .release)) : GivenBack start (rs.map release) where
  ledger := by
    rw [ops_map_release, holding_congr hsame]
    exact run_release hrs
  fresh r _ hmem := by
    rw [ops_map_release] at hmem
    obtain ⟨s, -, heq⟩ := List.mem_map.mp hmem
    cases heq
  once r := by
    have hzero : (ops (rs.map release)).count (.acquire r) = 0 := by
      rw [ops_map_release]
      refine List.count_eq_zero.mpr fun hmem => ?_
      obtain ⟨s, -, heq⟩ := List.mem_map.mp hmem
      cases heq
    omega
  javaFirst hopen := by
    rw [ops_map_release] at hopen ⊢
    rcases hopen with hstart | hlog
    · exact hjava ((hsame _).mp hstart)
    · obtain ⟨s, -, heq⟩ := List.mem_map.mp hlog
      cases heq
  unregistered hmem := by
    obtain ⟨s, -, heq⟩ := List.mem_map.mp hmem
    cases heq

theorem GivenBack.of_ops {log' : List Effect} (h : GivenBack start log) (hops : ops log' = ops log)
    (hreg : .register ∉ log') : GivenBack start log' :=
  ⟨hops ▸ h.ledger, hops ▸ h.fresh, hops ▸ h.once, hops ▸ h.javaFirst, hreg⟩

/-! ### The finalizers -/

theorem javaFirst_udpConnOwned {c : SlotFields} (h : c.egressFd = true) :
    JavaFirst (c.udpConnOwned.map .release) := by
  have hsplit : c.udpConnOwned =
      ((if c.linked then [.link c.widx] else []) ++ (if c.clientFd then c.closing .client else []) ++
        (if c.relayFd then c.closing .relay else [])) ++
      .javaSocket :: (c.closing .egress ++ ((if c.inBuf then [.inBuf] else []) ++
        ((if c.outBuf then [.outBuf] else []) ++ [.quota, .slot]))) := by
    simp [udpConnOwned, h]
  rw [hsplit, List.map_append, List.map_cons]
  refine ⟨_, _, rfl, fun hmem => ?_⟩
  obtain ⟨s, hs, heq⟩ := List.mem_map.mp hmem
  cases heq
  simp [closing] at hs

/-- `unref` is one of the two finalizers, for connections that have a relay socket or not. -/
def Finalizes (unref : SlotFields → List Effect) (relay : Bool) : Prop :=
  ∀ c : SlotFields, c.refs = 1 → c.finalized = false → c.relayFd = relay →
    unref c = c.udpConnOwned.map release

theorem finalizes_connUnref : Finalizes connUnref false := by
  intro c hrefs hfin hrelay
  rw [connUnref, if_pos hrefs, connFinalize, hfin, connOwned_eq hrelay]
  rfl

theorem finalizes_udpConnUnref (relay : Bool) : Finalizes udpConnUnref relay := by
  intro c hrefs hfin _
  rw [udpConnUnref, if_pos hrefs, udpConnFinalize, hfin]
  rfl

variable {unref : SlotFields → List Effect} {c : SlotFields} {o : Outcomes}

/-- The slot of a connection that nobody else refers to yet. -/
structure Fresh (relay : Bool) (c : SlotFields) : Prop where
  refs : c.refs = 1
  finalized : c.finalized = false
  relayFd : c.relayFd = relay

theorem Fresh.givenBack (hc : Fresh relay c) (hunref : Finalizes unref relay)
    (hsame : ∀ r, r ∈ start ↔ c.Owns r) : GivenBack start (unref c) := by
  rw [hunref c hc.refs hc.finalized hc.relayFd]
  refine .of_release (nodup_udpConnOwned c) (fun r => (hsame r).trans mem_udpConnOwned.symm) ?_
  intro hopen
  exact javaFirst_udpConnOwned (mem_udpConnOwned.mp hopen)

theorem Fresh.rollback (hc : Fresh relay c) (hunref : Finalizes unref relay)
    (hlinked : c.linked = true) :
    GivenBack c.udpConnOwned
      (release (.link c.widx) :: unref { c with linked := false, closed := true }) := by
  set c' : SlotFields := { c with linked := false, closed := true }
  rw [hunref c' hc.refs hc.finalized hc.relayFd]
  have hlink : Resource.link c.widx ∉ c'.udpConnOwned := by
    rw [mem_udpConnOwned]
    rintro ⟨hfalse, -⟩
    cases hfalse
  refine .of_release (List.nodup_cons.mpr ⟨hlink, nodup_udpConnOwned c'⟩) (fun r => ?_) fun hopen => ?_
  · rw [List.mem_cons, mem_udpConnOwned, mem_udpConnOwned]
    cases r with
    | link w =>
        simp only [Owns, hlinked, true_and, Resource.link.injEq]
        constructor
        · exact Or.inl
        · rintro (heq | ⟨hfalse, -⟩)
          · exact heq
          · cases hfalse
    | fd d => cases d <;> simp [Owns, has, c']
    | watch d => cases d <;> simp [Owns, has, c']
    | _ => simp [Owns, c']
  · refine (javaFirst_udpConnOwned (c := c') ?_).cons nofun
    have hmem := (List.mem_cons.mp hopen).resolve_left nofun
    exact mem_udpConnOwned.mp hmem

/-! ### The registration -/

/-- The connection under `list_lock`, with the descriptors `ds` still to be added. -/
structure Adding (relay : Bool) (w : ℕ) (ds : List Descriptor) (c : SlotFields) : Prop
    extends Fresh relay c where
  nodup : ds.Nodup
  unwatched : ∀ d ∈ ds, c.has d = true ∧ c.watched d = false
  rest : ∀ d, c.has d = true → c.watched d = true ∨ d ∈ ds
  clientFd : c.clientFd = true
  egressFd : c.egressFd = true
  inBuf : c.inBuf = true
  outBuf : c.outBuf = true
  linked : c.linked = true
  widx : c.widx = w

theorem Adding.live (hc : Adding relay w [] c) (r : Resource) :
    r ∈ c.udpConnOwned ↔ r ∈ liveResources w relay := by
  have hwatched : ∀ d, c.has d = true → c.watched d = true := fun d hd =>
    (hc.rest d hd).resolve_right List.not_mem_nil
  have hclient := hwatched .client hc.clientFd
  have hegress := hwatched .egress hc.egressFd
  have hrelay := hwatched .relay
  rw [mem_udpConnOwned]
  cases r with
  | fd d => cases d <;> simp [Owns, has, liveResources, hc.clientFd, hc.egressFd, hc.relayFd]
  | watch d =>
      cases d with
      | client => simp [Owns, has, liveResources, hc.clientFd, hclient]
      | egress => simp [Owns, has, liveResources, hc.egressFd, hegress]
      | relay =>
          simp only [has, hc.relayFd] at hrelay
          simp only [Owns, has, hc.relayFd, liveResources]
          cases relay <;> simp_all
  | link w => simp [Owns, liveResources, hc.linked, hc.widx]
  | _ => simp [Owns, liveResources, hc.egressFd, hc.inBuf, hc.outBuf]

theorem Adding.next {d : Descriptor} {ds : List Descriptor} (hc : Adding relay w (d :: ds) c) :
    Adding relay w ds { c with watched := Function.update c.watched d true } where
  refs := hc.refs
  finalized := hc.finalized
  relayFd := hc.relayFd
  nodup := (List.nodup_cons.mp hc.nodup).2
  unwatched e he := by
    obtain ⟨hhas, hfree⟩ := hc.unwatched e (List.mem_cons_of_mem d he)
    have hne : e ≠ d := by
      rintro rfl
      exact (List.nodup_cons.mp hc.nodup).1 he
    exact ⟨hhas, (Function.update_of_ne hne _ _).trans hfree⟩
  rest e he := by
    by_cases hed : e = d
    · exact Or.inl (by simp [hed])
    · rcases hc.rest e he with hw | hmem
      · exact Or.inl ((Function.update_of_ne hed _ _).trans hw)
      · exact Or.inr ((List.mem_cons.mp hmem).resolve_left hed)
  clientFd := hc.clientFd
  egressFd := hc.egressFd
  inBuf := hc.inBuf
  outBuf := hc.outBuf
  linked := hc.linked
  widx := hc.widx

theorem Adding.owns_next {d : Descriptor} {ds : List Descriptor} (hc : Adding relay w (d :: ds) c)
    (r : Resource) :
    r ∈ ({ c with watched := Function.update c.watched d true } : SlotFields).udpConnOwned ↔
      r ∈ Resource.watch d :: c.udpConnOwned := by
  obtain ⟨hhas, -⟩ := hc.unwatched d List.mem_cons_self
  rw [List.mem_cons, mem_udpConnOwned, mem_udpConnOwned]
  cases r with
  | watch e =>
      simp only [Owns, Resource.watch.injEq]
      by_cases hed : e = d
      · subst hed
        have hhas' :
            ({ c with watched := Function.update c.watched e true } : SlotFields).has e = true := by
          cases e <;> exact hhas
        simp [hhas']
      · rw [Function.update_of_ne hed]
        simp only [hed, false_or]
        cases e <;> rfl
  | fd e => cases e <;> simp [Owns, has]
  | _ => simp [Owns]

theorem Adding.addAll {ds : List Descriptor} (hc : Adding relay w ds c)
    (hunref : Finalizes unref relay) :
    AllOrNothing c.udpConnOwned w relay (addAll unref o ds c) := by
  induction ds generalizing c with
  | nil =>
      refine Or.inr ⟨?_, rfl, fun r => List.not_mem_nil⟩
      exact congrArg some (holding_congr hc.live)
  | cons d ds ih =>
      rw [SlotFields.addAll]
      split
      · refine ((ih hc.next).congr hc.owns_next).acquire fun hmem => ?_
        obtain ⟨-, hw⟩ := mem_udpConnOwned.mp hmem
        obtain ⟨-, hfree⟩ := hc.unwatched d List.mem_cons_self
        rw [hfree] at hw
        cases hw
      · exact Or.inl (hc.toFresh.rollback hunref hc.linked)

/-- The section under `list_lock`, from a slot with all its descriptors. -/
theorem Fresh.enlist {ds : List Descriptor} (hc : Fresh relay c) (hunref : Finalizes unref relay)
    (hadding : Adding relay w ds { c with linked := true }) (hlinked : c.linked = false)
    (hsame : ∀ r, r ∈ start ↔ c.Owns r) : AllOrNothing start w relay (enlist unref o ds c) := by
  unfold SlotFields.enlist
  split
  · exact Or.inl (hc.givenBack hunref hsame)
  · refine ((hadding.addAll hunref).congr fun r => ?_).acquire fun hmem => ?_
    · rw [List.mem_cons, hsame, mem_udpConnOwned]
      cases r with
      | link w => simp [Owns, hlinked]
      | fd d => cases d <;> simp [Owns, has]
      | watch d => cases d <;> simp [Owns, has]
      | _ => simp [Owns]
    · obtain ⟨hfalse, -⟩ := (hsame _).mp hmem
      rw [hlinked] at hfalse
      cases hfalse

/-! ### The whole set-up -/

theorem AllOrNothing.mallocs (hin : .inBuf ∉ start) (hout : .outBuf ∉ start)
    (h : AllOrNothing ((if o.outBuf then [.outBuf] else []) ++
      ((if o.inBuf then [.inBuf] else []) ++ start)) w relay log) :
    AllOrNothing start w relay (mallocs o ++ log) := by
  have hsecond : AllOrNothing ((if o.inBuf then [.inBuf] else []) ++ start) w relay
      ((if o.outBuf then [FiveGProxy.acquire .outBuf] else []) ++ log) := by
    cases hb : o.outBuf
    · simpa [hb] using h
    · rw [hb] at h
      refine AllOrNothing.acquire h ?_
      cases o.inBuf <;> simp [hout]
  rw [FiveGProxy.mallocs, List.append_assoc]
  cases hb : o.inBuf
  · simpa [hb] using hsecond
  · rw [hb] at hsecond
    exact AllOrNothing.acquire hsecond hin

/-- Before its descriptors have been added, a slot has the two of a connection, or also a relay
socket. -/
theorem adding_prepared {ds : List Descriptor} (hin : o.inBuf = true) (hout : o.outBuf = true)
    (hds : ds.Nodup) (hopen : ∀ d, d ∈ ds ↔ d = .relay → relay = true) :
    Adding relay o.widx ds
      { prepared o true with relayFd := relay, linked := true } where
  refs := rfl
  finalized := rfl
  relayFd := rfl
  nodup := hds
  unwatched d hd := by
    refine ⟨?_, rfl⟩
    cases d with
    | client => rfl
    | egress => rfl
    | relay => exact (hopen .relay).mp hd rfl
  rest d hd := by
    refine Or.inr ((hopen d).mpr ?_)
    rintro rfl
    exact hd
  clientFd := rfl
  egressFd := rfl
  inBuf := hin
  outBuf := hout
  linked := rfl
  widx := rfl

theorem owns_prepared (b : Bool) {r : Resource} :
    (prepared o b).Owns r ↔ r ∈ (if o.outBuf then [Resource.outBuf] else []) ++
      ((if o.inBuf then [.inBuf] else []) ++ (.slot :: .quota :: .fd .client ::
        if b then [.fd .egress, .javaSocket] else [])) := by
  cases r with
  | fd d => cases d <;> cases b <;> simp [Owns, has, prepared]
  | watch d => cases b <;> simp [Owns, prepared]
  | _ => cases b <;> simp [Owns, prepared]

theorem fresh_prepared (b : Bool) : Fresh false (prepared o b) := ⟨rfl, rfl, rfl⟩

theorem handoffToWorker_allOrNothing :
    AllOrNothing [.quota, .fd .client, .fd .egress, .javaSocket] o.widx false o.handoffToWorker := by
  unfold Outcomes.handoffToWorker
  split
  case isFalse =>
    have hperm : [Resource.quota, .fd .client, .fd .egress, .javaSocket].Perm
        [.quota, .javaSocket, .fd .client, .fd .egress] := by decide
    exact Or.inl (.of_release (by decide) (fun _ => hperm.mem_iff)
      fun _ => ⟨[.release .quota], _, rfl, by decide⟩)
  case isTrue =>
    refine AllOrNothing.acquire (.mallocs (by decide) (by decide) ?_) (by decide)
    by_cases hbufs : (o.inBuf && o.outBuf) = true
    · obtain ⟨hin, hout⟩ := Bool.and_eq_true_iff.mp hbufs
      rw [if_pos hbufs]
      refine (fresh_prepared true).enlist finalizes_connUnref ?_ rfl fun r => (owns_prepared true).symm
      exact adding_prepared hin hout (by decide) fun d => by cases d <;> decide
    · rw [if_neg hbufs]
      exact Or.inl ((fresh_prepared true).givenBack finalizes_connUnref fun r => (owns_prepared true).symm)

theorem refuse_givenBack {log : List Effect} (hops : ops log = [.release .quota, .release (.fd .client)])
    (hreg : .register ∉ log) : GivenBack [.quota, .fd .client] log := by
  have hback : GivenBack [.quota, .fd .client] ([Resource.quota, .fd .client].map release) :=
    .of_release (by decide) (fun _ => Iff.rfl) fun hopen => absurd hopen (by decide)
  exact hback.of_ops hops hreg

/-- Behind the buffers, `start` is what a session owns without the descriptors of its UDP sockets. -/
theorem udpConnect_allOrNothing {resp : List UInt8} {ds : List Descriptor} {c : SlotFields}
    (hc : Fresh relay c) (hsame : ∀ r, r ∈ start ↔ c.Owns r) (hegress : c.egressFd = false)
    (hwatched : c.watched = fun _ => false) (hlinked : c.linked = false)
    (hadding : Adding relay w ds { c with egressFd := true, linked := true }) :
    AllOrNothing start w relay (udpConnect o resp ds c) := by
  refine AllOrNothing.other ?_ nofun nofun
  split
  case isFalse =>
    exact .other (Or.inl (hc.givenBack (finalizes_udpConnUnref relay) hsame)) nofun nofun
  case isTrue =>
    have hopen : Fresh relay { c with egressFd := true } := ⟨hc.refs, hc.finalized, hc.relayFd⟩
    have hjava : Resource.javaSocket ∉ start := by
      rw [hsame]
      simp [Owns, hegress]
    have hfd : Resource.fd .egress ∉ Resource.javaSocket :: start := by
      rw [List.mem_cons, hsame]
      simp [Owns, has, hegress]
    refine AllOrNothing.acquire (AllOrNothing.acquire (.other ?_ nofun nofun) hfd) hjava
    refine hopen.enlist (finalizes_udpConnUnref relay) hadding hlinked fun r => ?_
    rw [List.mem_cons, List.mem_cons, hsame]
    cases r with
    | fd d => cases d <;> simp [Owns, has, hegress]
    | watch d => cases d <;> simp [Owns, has, hwatched]
    | _ => simp [Owns, hegress]

theorem udpStartSession_allOrNothing (cmd : UInt8) :
    ∃ relay, AllOrNothing [.fd .client] o.widx relay (udpStartSession o cmd) := by
  have hquota : ∀ {relay : Bool} {log : List Effect},
      AllOrNothing [.quota, .fd .client] o.widx relay log →
      AllOrNothing [.fd .client] o.widx relay (FiveGProxy.acquire .quota :: log) :=
    fun h => h.acquire (by decide)
  unfold udpStartSession
  split
  · exact ⟨false, hquota (Or.inl (refuse_givenBack rfl (by simp)))⟩
  split
  case isFalse => exact ⟨false, hquota (Or.inl (refuse_givenBack rfl (by simp)))⟩
  case isTrue =>
    have hslot : ∀ {relay : Bool} {log : List Effect},
        AllOrNothing ((if o.outBuf then [.outBuf] else []) ++ ((if o.inBuf then [.inBuf] else []) ++
          [.slot, .quota, .fd .client])) o.widx relay log →
        AllOrNothing [.fd .client] o.widx relay
          (FiveGProxy.acquire .quota :: (FiveGProxy.acquire .slot :: FiveGProxy.mallocs o ++ log)) :=
      fun h => hquota (AllOrNothing.acquire (.mallocs (by decide) (by decide) h) (by decide))
    have howns : ∀ {r}, r ∈ (if o.outBuf then [Resource.outBuf] else []) ++
        ((if o.inBuf then [.inBuf] else []) ++ [.slot, .quota, .fd .client]) ↔
          (prepared o false).Owns r := (owns_prepared false).symm
    have hback : GivenBack ((if o.outBuf then [.outBuf] else []) ++ ((if o.inBuf then [.inBuf] else []) ++
          [.slot, .quota, .fd .client])) (udpConnUnref (prepared o false)) :=
      (fresh_prepared false).givenBack (finalizes_udpConnUnref false) fun _ => howns
    by_cases hbufs : (o.inBuf && o.outBuf) = true
    case neg =>
      rw [if_neg hbufs]
      exact ⟨false, hslot (Or.inl hback)⟩
    case pos =>
      obtain ⟨hin, hout⟩ := Bool.and_eq_true_iff.mp hbufs
      rw [if_pos hbufs]
      split
      case isFalse =>
        refine ⟨false, hslot (udpConnect_allOrNothing (fresh_prepared false) (fun _ => howns)
          rfl rfl rfl ?_)⟩
        exact adding_prepared hin hout (by decide) fun d => by cases d <;> decide
      case isTrue =>
        split
        case isFalse => exact ⟨false, hslot (.other (Or.inl hback) (by rintro _ ⟨⟩) (by rintro ⟨⟩))⟩
        case isTrue =>
          refine ⟨true, hslot (AllOrNothing.acquire (udpConnect_allOrNothing ⟨rfl, rfl, rfl⟩
            (fun r => ?_) rfl rfl rfl ?_) ?_)⟩
          · rw [List.mem_cons, howns]
            cases r with
            | fd d => cases d <;> simp [Owns, has, prepared]
            | watch d => simp [Owns, prepared]
            | _ => simp [Owns, prepared]
          · exact adding_prepared hin hout (by decide) fun d => by cases d <;> decide
          · rw [howns]
            simp [Owns, has, prepared]

theorem serve_allOrNothing (r : Request) :
    ∃ relay, AllOrNothing [.fd .client] o.widx relay (serve o r) := by
  cases r with
  | session cmd =>
      obtain ⟨relay, h⟩ := udpStartSession_allOrNothing (o := o) cmd
      exact ⟨relay, h.other (by rintro _ ⟨⟩) (by rintro ⟨⟩)⟩
  | connect host port =>
      refine ⟨false, AllOrNothing.acquire (r := .quota) ?_ (by decide)⟩
      split
      · exact Or.inl (refuse_givenBack rfl (by simp))
      refine AllOrNothing.other ?_ (by rintro _ ⟨⟩) (by rintro ⟨⟩)
      split
      case isFalse => exact Or.inl (refuse_givenBack rfl (by simp))
      case isTrue =>
        refine AllOrNothing.acquire (AllOrNothing.acquire (.other ?_ (by rintro _ ⟨⟩)
          (by rintro ⟨⟩)) (by decide))
          (by decide)
        have hperm : [Resource.quota, .fd .client, .fd .egress, .javaSocket].Perm
            [.fd .egress, .javaSocket, .quota, .fd .client] := by decide
        exact handoffToWorker_allOrNothing.congr fun _ => hperm.mem_iff

/-- For every stream and however the fallible steps turn out, everything that was taken for the client
is given back, each descriptor closed once for each time that it was opened, the Java socket first,
or exactly one connection lives that owns everything that was taken. -/
theorem setup_all_or_nothing (g : AuthGlobals) (stack : AuthStack) (o : Outcomes)
    (incoming : List UInt8) (buf : ℕ → UInt8) :
    ∃ log, handleHandshakeFd g stack o incoming buf = some log ∧
      (GivenBack [.fd .client] log ∧
          (∀ d, (ops log).count (.release (.fd d)) =
            (ops log).count (.acquire (.fd d)) + if d = .client then 1 else 0) ∨
        ∃ relay, Lives [.fd .client] o.widx relay log) := by
  have hsent : ∀ {relay : Bool} {log : List Effect} (replies : List (List UInt8)),
      AllOrNothing [.fd .client] o.widx relay log →
      AllOrNothing [.fd .client] o.widx relay (replies.map .send ++ log) := by
    intro relay log replies h
    induction replies with
    | nil => exact h
    | cons bytes replies ih => exact ih.other (by rintro _ ⟨⟩) (by rintro ⟨⟩)
  have hcount : ∀ (relay : Bool) {log : List Effect}, AllOrNothing [.fd .client] o.widx relay log →
      GivenBack [.fd .client] log ∧
          (∀ d, (ops log).count (.release (.fd d)) =
            (ops log).count (.acquire (.fd d)) + if d = .client then 1 else 0) ∨
        ∃ relay, Lives [.fd .client] o.widx relay log := by
    rintro relay log (hback | hlives)
    · refine Or.inl ⟨hback, fun d => ?_⟩
      have hcount := ledger_count hback.ledger (.fd d)
      have hstart : (holding [Resource.fd .client] (.fd d)).toNat = if d = .client then 1 else 0 := by
        cases d <;> rfl
      rwa [hstart] at hcount
    · exact Or.inr ⟨relay, hlives⟩
  unfold handleHandshakeFd
  cases hneg : negotiate g stack ⟨incoming, 0, [], buf⟩ with
  | overflow => exact absurd hneg negotiate_ne_overflow
  | err x =>
      have hnodup : [Resource.fd .client].Nodup := by decide
      have hclose : GivenBack [.fd .client] [FiveGProxy.release (.fd .client)] :=
        .of_release hnodup (fun _ => Iff.rfl)
          fun hopen => absurd hopen (by decide)
      exact ⟨_, rfl, hcount false (hsent x.sent (Or.inl hclose))⟩
  | ok r x =>
      obtain ⟨relay, h⟩ := serve_allOrNothing (o := o) r
      exact ⟨_, rfl, hcount relay (hsent x.sent h)⟩

end

end FiveGProxy
