import FiveGProxy.Slots.Tenancy
import FiveGProxy.Handshake.Setup
import Mathlib.Data.Finset.Card
import Mathlib.Data.Finset.Range

/-!
# The quota of connections

`g_conn_count` is shared by the two engines. A handshake thread adds one before it asks for a slot,
and takes it back itself when it is refused; behind the slot the quota is given back in
`conn_finalize` and `udp_conn_finalize`, just before the slot. A run is one life of the server:
`socks5_server_main_dynamic` sets the counter to 0.
-/

namespace FiveGProxy

open Steps

/-- A handshake thread between its `fetch_add` and its slot. -/
inductive CallerPc
  | idle
  /-- The quota is exhausted; `fetch_sub` comes next. -/
  | rejected
  /-- In `request_java_5g_socket`. -/
  | connector
  | acquire (e : Engine)
  /-- There is no socket or no slot; `fetch_sub` comes next. -/
  | failed
  deriving DecidableEq, Repr

structure QuotaState where
  engine : Engine → EpollEngine
  connCount : ℤ
  caller : ℕ → CallerPc
  /-- The thread is in `conn_finalize` between its `fetch_sub` and `slot_release`. -/
  subtracted : Engine → Agent → Bool
  /-- The tenancies so far. -/
  acquired : Finset (Engine × Ref)
  /-- The tenancies whose finalizer has executed its `fetch_sub`. -/
  ended : Finset (Engine × Ref)

/-- One step of one thread. -/
inductive QuotaEvent
  | fetchAdd (e : Engine) (h : ℕ)
  | connector (h : ℕ) (ok : Bool)
  | slotAcquire (h idx : ℕ) (roles : List FdRole)
  | fetchSub (h : ℕ)
  | finalizeSub (e : Engine) (a : Agent)
  | handshake (e : Engine) (h : ℕ) (ok : Bool)
  | worker (e : Engine) (w : ℕ) (choice : Bool) (batch : List (BitVec 64))
  | quit
  deriving DecidableEq, Repr

/-- The thread is about to execute the `fetch_sub` of `conn_finalize`, or has just done so. -/
def EpollEngine.Releasing (st : EpollEngine) (a : Agent) : Prop :=
  (st.unrefAt a).map Prod.snd = some .release

instance (st : EpollEngine) (a : Agent) : Decidable (st.Releasing a) :=
  inferInstanceAs (Decidable (_ = _))

namespace QuotaState

def init : QuotaState where
  engine := EpollEngine.init
  connCount := 0
  caller := fun _ => .idle
  subtracted := fun _ _ => false
  acquired := ∅
  ended := ∅

def setCaller (st : QuotaState) (h : ℕ) (pc : CallerPc) : QuotaState :=
  { st with caller := Function.update st.caller h pc }

def setEngine (st : QuotaState) (e : Engine) (eng : EpollEngine) : QuotaState :=
  { st with engine := Function.update st.engine e eng }

/-- One step of thread `a` of engine `e`. In `conn_finalize` the `fetch_sub` comes before
`slot_release`. -/
def threadStep (st : QuotaState) (e : Engine) (a : Agent) (next : Option EpollEngine) :
    Option QuotaState :=
  if (st.engine e).Releasing a ∧ st.subtracted e a = false then none
  else next.map fun eng =>
    { st.setEngine e eng with
      subtracted := Function.update st.subtracted e
        (Function.update (st.subtracted e) a false) }

end QuotaState

open QuotaState

/-- The handshake threads and the workers of the two engines around `g_conn_count`. -/
def quotaStep (st : QuotaState) : QuotaEvent → Option QuotaState
  | .fetchAdd e h =>
      if h < handshakePoolSize ∧ st.caller h = .idle ∧ (st.engine .tcp).handshake h = .idle ∧
          (st.engine .udp).handshake h = .idle then
        some { st.setCaller h
            (if maxConcurrentConns ≤ st.connCount then .rejected
            else if e = .tcp then .connector else .acquire .udp) with
          connCount := st.connCount + 1 }
      else none
  | .connector h ok =>
      if st.caller h = .connector then
        some (st.setCaller h (if ok then .acquire .tcp else .failed))
      else none
  | .slotAcquire h idx roles =>
      match st.caller h with
      | .acquire e =>
          ((st.engine e).handoffStep e h idx roles).map fun eng =>
            match (st.engine e).freeSlots with
            | [] => st.setCaller h .failed
            | s :: _ =>
                { (st.setEngine e eng).setCaller h .idle with
                  acquired := insert (e, eng.current s) st.acquired }
      | _ => none
  | .fetchSub h =>
      if st.caller h = .rejected ∨ st.caller h = .failed then
        some { st.setCaller h .idle with connCount := st.connCount - 1 }
      else none
  | .finalizeSub e a =>
      match (st.engine e).unrefAt a, st.subtracted e a with
      | some (r, .release), false =>
          some { st with
            connCount := st.connCount - 1
            subtracted := Function.update st.subtracted e
              (Function.update (st.subtracted e) a true)
            ended := insert (e, (st.engine e).current r.slot) st.ended }
      | _, _ => none
  | .handshake e h ok =>
      st.threadStep e (.handshake h) (engineStep e (st.engine e) (.handshake h ok))
  | .worker e w choice batch =>
      st.threadStep e (.worker w) (engineStep e (st.engine e) (.worker w choice batch))
  | .quit => some { st with engine := fun e => { st.engine e with serverRunning := false } }

namespace QuotaState

/-- The callers between their `fetch_add` and their own `fetch_sub` or their slot. -/
def callers (st : QuotaState) : Finset ℕ :=
  (Finset.range handshakePoolSize).filter fun h => st.caller h ≠ .idle

/-- Those of them whose `fetch_add` has not found the quota exhausted. -/
def admitted (st : QuotaState) : Finset ℕ :=
  (Finset.range handshakePoolSize).filter fun h => st.caller h ≠ .idle ∧ st.caller h ≠ .rejected

/-- The tenancies whose finalizer has not executed its `fetch_sub`. -/
def tenancies (st : QuotaState) : Finset (Engine × Ref) := st.acquired \ st.ended

end QuotaState

/-! ### Tenancies whose finalizer has given the quota back -/

/-- Thread `a` is in the finalizer of slot `s`, behind its `fetch_sub`. -/
def Behind (eng : EpollEngine) (sub : Agent → Bool) (a : Agent) (s : ℕ) : Prop :=
  ∃ q pc, eng.unrefAt a = some (q, pc) ∧ q.slot = s ∧
    (pc = .release ∧ sub a = true ∨ ∃ t, pc = .push t)

/-- The slot has gone on since tenancy `r`, or the quota of `r` has been given back. -/
def Over (eng : EpollEngine) (sub : Agent → Bool) (r : Ref) : Prop :=
  r.tenancy < eng.tenancy r.slot ∨ r.slot ∈ eng.freeSlots ∨ ∃ a, Behind eng sub a r.slot

section

variable {e : Engine} {eng eng' : EpollEngine} {sub : Agent → Bool} {a b : Agent} {s : ℕ} {r : Ref}

theorem Behind.occupies (h : Behind eng sub a s) : eng.Occupies a s := by
  obtain ⟨q, pc, hat, hq, ⟨rfl, -⟩ | ⟨t, rfl⟩⟩ := h
  · exact .inr ⟨q, .release, hat, nofun, hq⟩
  · exact .inr ⟨q, .push t, hat, nofun, hq⟩

theorem behind_frame (hframe : StepFrame a eng eng') (hb : b ≠ a) :
    Behind eng' (Function.update sub a false) b s ↔ Behind eng sub b s := by
  unfold Behind
  rw [hframe.unrefAt b hb, Function.update_of_ne hb]

theorem over_frame (hframe : StepFrame a eng eng')
    (hown : ∀ t, t ∈ eng'.freeSlots ∨ Behind eng' (Function.update sub a false) a t ↔
      t ∈ eng.freeSlots ∨ Behind eng sub a t) :
    Over eng' (Function.update sub a false) r ↔ Over eng sub r := by
  have hsplit : ∀ (g : EpollEngine) (f : Agent → Bool), Over g f r ↔
      r.tenancy < g.tenancy r.slot ∨ (r.slot ∈ g.freeSlots ∨ Behind g f a r.slot) ∨
        ∃ b, b ≠ a ∧ Behind g f b r.slot := by
    intro g f
    constructor
    · rintro (h | h | ⟨b, hb⟩)
      · exact .inl h
      · exact .inr (.inl (.inl h))
      · by_cases hba : b = a
        · exact .inr (.inl (.inr (hba ▸ hb)))
        · exact .inr (.inr ⟨b, hba, hb⟩)
    · rintro (h | (h | h) | ⟨b, -, hb⟩)
      · exact .inl h
      · exact .inr (.inl h)
      · exact .inr (.inr ⟨a, h⟩)
      · exact .inr (.inr ⟨b, hb⟩)
  rw [hsplit eng', hsplit eng, hframe.tenancy, hown]
  refine or_congr_right (or_congr_right (exists_congr fun b => and_congr_right fun hb => ?_))
  exact behind_frame hframe hb

theorem behind_iff {q : Ref} {pc : UnrefPc} (hat : eng.unrefAt a = some (q, pc)) {t : ℕ} :
    Behind eng sub a t ↔ q.slot = t ∧ (pc = .release ∧ sub a = true ∨ ∃ t, pc = .push t) := by
  constructor
  · rintro ⟨q', pc', hat', hq⟩
    rw [hat] at hat'
    cases hat'
    exact hq
  · exact fun hq => ⟨q, pc, hat, hq⟩

theorem not_behind_of_call (hcall : ∀ q u, eng.unrefAt a = some (q, u) → u = .call) {t : ℕ} :
    ¬Behind eng sub a t := by
  rintro ⟨q, pc, hat, -, ⟨rfl, -⟩ | ⟨t', rfl⟩⟩
  · cases hcall q _ hat
  · cases hcall q _ hat

/-- `conn_unref` and `conn_finalize` up to the `fetch_sub`. -/
theorem not_behind_before {q : Ref} {pc : UnrefPc} (hat : eng.unrefAt a = some (q, pc))
    (hpc : pc = .exchange ∨ pc = .poison ∨ pc = .release ∧ sub a = false) {t : ℕ} :
    ¬Behind eng sub a t := by
  rw [behind_iff hat]
  rintro ⟨-, ⟨rfl, hsub⟩ | ⟨t', rfl⟩⟩
  · rcases hpc with hpc | hpc | ⟨-, hpc⟩
    · cases hpc
    · cases hpc
    · rw [hsub] at hpc
      cases hpc
  · rcases hpc with hpc | hpc | ⟨hpc, -⟩ <;> cases hpc

theorem over_unref (hinv : SlotInv e eng) {pc : UnrefPc} {mid : EpollEngine}
    {pc' : Option UnrefPc} (hbefore : eng.unrefAt a = some (r, pc))
    (hstep : eng.unrefStep r pc = some (mid, pc')) (hfree : eng'.freeSlots = mid.freeSlots)
    (hafter : ∀ u, pc' = some u → eng'.unrefAt a = some (r, u))
    (hdone : pc' = none → ∀ q u, eng'.unrefAt a = some (q, u) → u = .call)
    (hguard : eng.Releasing a → sub a = true) :
    (∀ t, t ∈ eng'.freeSlots ∨ Behind eng' (Function.update sub a false) a t ↔
      t ∈ eng.freeSlots ∨ Behind eng sub a t) ∧ eng.freeSlots ⊆ eng'.freeSlots := by
  have hsub : Function.update sub a false a = false := Function.update_self ..
  have early : ∀ {next}, mid.freeSlots = eng.freeSlots → (∀ t, ¬Behind eng sub a t) →
      (pc' = none ∨ pc' = some next) → (next = .exchange ∨ next = .poison ∨ next = .release) →
      (∀ t, t ∈ eng'.freeSlots ∨ Behind eng' (Function.update sub a false) a t ↔
        t ∈ eng.freeSlots ∨ Behind eng sub a t) ∧ eng.freeSlots ⊆ eng'.freeSlots := by
    intro next hmid hnot hpc hnext
    have hnot' : ∀ t, ¬Behind eng' (Function.update sub a false) a t := by
      intro t
      rcases hpc with hpc | hpc
      · exact not_behind_of_call (hdone hpc)
      · refine not_behind_before (hafter next hpc) ?_
        rcases hnext with h | h | h
        · exact .inl h
        · exact .inr (.inl h)
        · exact .inr (.inr ⟨h, hsub⟩)
    refine ⟨fun t => ?_, ?_⟩
    · rw [hfree, hmid, or_iff_left (hnot' t), or_iff_left (hnot t)]
    · rw [hfree, hmid]
      exact List.Subset.refl _
  cases pc with
  | call =>
      obtain ⟨rfl, rfl⟩ := Prod.mk.inj (Option.some.inj hstep)
      refine early rfl (fun t => not_behind_of_call fun q u hat => ?_)
        (ite_eq_or_eq _ _ _).symm (.inl rfl)
      rw [hbefore] at hat
      cases hat
      rfl
  | exchange =>
      obtain ⟨rfl, rfl⟩ := Prod.mk.inj (Option.some.inj hstep)
      exact early rfl (fun t => not_behind_before hbefore (.inl rfl)) (ite_eq_or_eq _ _ _)
        (.inr (.inl rfl))
  | poison =>
      simp only [EpollEngine.unrefStep] at hstep
      split at hstep
      · obtain ⟨rfl, rfl⟩ := Prod.mk.inj (Option.some.inj hstep)
        exact early rfl (fun t => not_behind_before hbefore (.inr (.inl rfl))) (.inr rfl)
          (.inr (.inr rfl))
      · cases hstep
  | release =>
      have hflag : sub a = true := hguard (by rw [EpollEngine.Releasing, hbefore]; rfl)
      obtain ⟨rfl, rfl⟩ := Prod.mk.inj (Option.some.inj hstep)
      refine ⟨fun t => ?_, ?_⟩
      · rw [hfree, behind_iff (hafter _ rfl), behind_iff hbefore]
        refine or_congr_right (and_congr_right fun _ => iff_of_true (.inr ⟨_, rfl⟩) ?_)
        exact .inl ⟨rfl, hflag⟩
      · rw [hfree]
        exact List.Subset.refl _
  | push s =>
      obtain rfl := hinv.push a r s hbefore
      obtain ⟨rfl, rfl⟩ := Prod.mk.inj (Option.some.inj hstep)
      refine ⟨fun t => ?_, ?_⟩
      · rw [hfree, or_iff_left (not_behind_of_call (hdone rfl)), behind_iff hbefore, List.mem_cons]
        constructor
        · rintro (rfl | h)
          · exact .inr ⟨rfl, .inr ⟨_, rfl⟩⟩
          · exact .inl h
        · rintro (h | ⟨h, -⟩)
          · exact .inr h
          · exact .inl h.symm
      · rw [hfree]
        exact List.subset_cons_self _ _

/-- A step of a thread that keeps the order of `fetch_sub` and `slot_release` gives nothing back
and takes nothing. -/
theorem over_step (hinv : SlotInv e eng) (hframe : StepFrame a eng eng')
    (hstep : AgentStep e a eng eng') (hguard : eng.Releasing a → sub a = true) :
    (∀ r, Over eng' (Function.update sub a false) r ↔ Over eng sub r) ∧
      eng.freeSlots ⊆ eng'.freeSlots := by
  have quiet : eng.unrefAt a = none → (∀ q u, eng'.unrefAt a = some (q, u) → u = .call) →
      eng'.freeSlots = eng.freeSlots →
      (∀ t, t ∈ eng'.freeSlots ∨ Behind eng' (Function.update sub a false) a t ↔
        t ∈ eng.freeSlots ∨ Behind eng sub a t) ∧ eng.freeSlots ⊆ eng'.freeSlots := by
    intro hbefore hafter hfree
    refine ⟨fun t => ?_, hfree ▸ List.Subset.refl _⟩
    have hnot : ¬Behind eng sub a t := not_behind_of_call fun q u hat => by
      rw [hbefore] at hat
      cases hat
    rw [hfree, or_iff_left (not_behind_of_call hafter), or_iff_left hnot]
  have hown : (∀ t, t ∈ eng'.freeSlots ∨ Behind eng' (Function.update sub a false) a t ↔
      t ∈ eng.freeSlots ∨ Behind eng sub a t) ∧ eng.freeSlots ⊆ eng'.freeSlots := by
    cases hstep with
    | store r x todo hbefore hafter hunref hconn hfree =>
        refine quiet hunref.1 (fun q u hat => ?_) hfree
        rw [hunref.2] at hat
        cases hat
    | unref r pc mid pc' hbefore hunref hprepare hconn hfree hafter hdone =>
        exact over_unref hinv hbefore hunref hfree hafter hdone hguard
    | other hbefore hafter hprepared hprepare hconn hfree hentry => exact quiet hbefore hafter hfree
  exact ⟨fun r => over_frame hframe hown.1, hown.2⟩

end

/-! ### The invariant -/

/-- What the logs say about one engine. -/
structure EngineQuota (e : Engine) (eng : EpollEngine) (sub : Agent → Bool)
    (acquired ended : Finset (Engine × Ref)) : Prop where
  slots : SlotInv e eng
  held : ∀ s < e.slotCount, s ∉ eng.freeSlots → (e, eng.current s) ∈ acquired
  old : ∀ r, (e, r) ∈ acquired → r.slot < e.slotCount ∧ r.tenancy ≤ eng.tenancy r.slot
  ended_iff : ∀ r, (e, r) ∈ acquired → ((e, r) ∈ ended ↔ Over eng sub r)

structure QuotaInv (st : QuotaState) : Prop where
  engine : ∀ e, EngineQuota e (st.engine e) (st.subtracted e) st.acquired st.ended
  range : ∀ h, st.caller h ≠ .idle → h < handshakePoolSize
  sub : st.ended ⊆ st.acquired
  count : st.connCount = st.callers.card + st.tenancies.card
  bounded : st.admitted.card + st.tenancies.card ≤ maxConcurrentConns

theorem QuotaInv.init : QuotaInv QuotaState.init where
  engine e :=
    { slots := SlotInv.init e
      held := fun s hs hfree => absurd (List.mem_reverse.mpr (List.mem_range.mpr hs)) hfree
      old := fun r hr => absurd hr (Finset.notMem_empty _)
      ended_iff := fun r hr => absurd hr (Finset.notMem_empty _) }
  range h hh := absurd rfl hh
  sub := Finset.Subset.refl _
  count := by simp [QuotaState.init, QuotaState.callers, QuotaState.tenancies]
  bounded := by simp [QuotaState.init, QuotaState.admitted, QuotaState.tenancies]

theorem card_filter_setCaller (p : CallerPc → Prop) [DecidablePred p] (f : ℕ → CallerPc) {h : ℕ}
    (hh : h < handshakePoolSize) (pc : CallerPc) :
    ((Finset.range handshakePoolSize).filter fun k => p (Function.update f h pc k)).card +
        (if p (f h) then 1 else 0) =
      ((Finset.range handshakePoolSize).filter fun k => p (f k)).card + if p pc then 1 else 0 := by
  have hinsert : insert h ((Finset.range handshakePoolSize).erase h) =
      Finset.range handshakePoolSize := Finset.insert_erase (Finset.mem_range.mpr hh)
  have hrest : ((Finset.range handshakePoolSize).erase h).filter
      (fun k => p (Function.update f h pc k)) =
        ((Finset.range handshakePoolSize).erase h).filter fun k => p (f k) := by
    refine Finset.filter_congr fun k hk => ?_
    rw [Function.update_of_ne (Finset.ne_of_mem_erase hk)]
  have hnot : ∀ q : ℕ → Prop, [DecidablePred q] →
      h ∉ ((Finset.range handshakePoolSize).erase h).filter q := by
    intro q _ hmem
    exact Finset.notMem_erase h _ (Finset.mem_filter.mp hmem).1
  rw [← hinsert, Finset.filter_insert, Finset.filter_insert, hrest, Function.update_self]
  split <;> split <;> simp only [Finset.card_insert_of_notMem (hnot _)]

namespace QuotaInv

variable {st : QuotaState}

theorem callers_setCaller {h : ℕ} (hh : h < handshakePoolSize) (pc : CallerPc) :
    (st.setCaller h pc).callers.card + (if st.caller h ≠ .idle then 1 else 0) =
      st.callers.card + if pc ≠ .idle then 1 else 0 :=
  card_filter_setCaller (fun pc => pc ≠ .idle) st.caller hh pc

theorem admitted_setCaller {h : ℕ} (hh : h < handshakePoolSize) (pc : CallerPc) :
    (st.setCaller h pc).admitted.card +
        (if st.caller h ≠ .idle ∧ st.caller h ≠ .rejected then 1 else 0) =
      st.admitted.card + if pc ≠ .idle ∧ pc ≠ .rejected then 1 else 0 :=
  card_filter_setCaller (fun pc => pc ≠ .idle ∧ pc ≠ .rejected) st.caller hh pc

theorem call (hinv : QuotaInv st) {h : ℕ} {pc : CallerPc} {n : ℤ} (hh : h < handshakePoolSize)
    (hcount : n - st.connCount =
      (if pc ≠ .idle then 1 else 0) - if st.caller h ≠ .idle then 1 else 0)
    (hbounded : (pc ≠ .idle ∧ pc ≠ .rejected) → (st.caller h ≠ .idle ∧ st.caller h ≠ .rejected) ∨
      st.connCount < maxConcurrentConns) :
    QuotaInv { st.setCaller h pc with connCount := n } where
  engine := hinv.engine
  range k hk := by
    by_cases hkh : k = h
    · exact hkh ▸ hh
    · exact hinv.range k (by simpa [setCaller, hkh] using hk)
  sub := hinv.sub
  count := by
    have hcallers := @callers_setCaller st h hh pc
    have hold := hinv.count
    have hnew : n = (st.setCaller h pc).callers.card + st.tenancies.card := by
      by_cases hidle : st.caller h ≠ .idle
      · rw [if_pos hidle] at hcallers hcount
        split at hcallers <;> simp_all <;> omega
      · rw [if_neg hidle] at hcallers hcount
        split at hcallers <;> simp_all <;> omega
    exact hnew
  bounded := by
    have hadmitted := @admitted_setCaller st h hh pc
    have hle : st.admitted.card ≤ st.callers.card :=
      Finset.card_le_card (Finset.monotone_filter_right _ fun k _ hk => hk.1)
    have hold := hinv.bounded
    have hcount := hinv.count
    have hnew : (st.setCaller h pc).admitted.card + st.tenancies.card ≤ maxConcurrentConns := by
      by_cases hpc : pc ≠ .idle ∧ pc ≠ .rejected
      · rcases hbounded hpc with hcaller | hlt
        · rw [if_pos hpc, if_pos hcaller] at hadmitted
          omega
        · rw [if_pos hpc] at hadmitted
          split at hadmitted <;> omega
      · rw [if_neg hpc] at hadmitted
        omega
    exact hnew

theorem setEngine (hinv : QuotaInv st) {e : Engine} {eng : EpollEngine} {f : Agent → Bool}
    (hengine : EngineQuota e eng f st.acquired st.ended) :
    QuotaInv { st.setEngine e eng with subtracted := Function.update st.subtracted e f } where
  engine e' := by
    by_cases he : e' = e
    · subst he
      simpa [QuotaState.setEngine] using hengine
    · simpa [QuotaState.setEngine, he] using hinv.engine e'
  range := hinv.range
  sub := hinv.sub
  count := hinv.count
  bounded := hinv.bounded

theorem thread (hinv : QuotaInv st) {e : Engine} {a : Agent} {next : Option EpollEngine}
    {st' : QuotaState} (hstep : st.threadStep e a next = some st')
    (hnext : ∀ eng, next = some eng →
      StepFrame a (st.engine e) eng ∧ AgentStep e a (st.engine e) eng) : QuotaInv st' := by
  unfold QuotaState.threadStep at hstep
  split at hstep
  · cases hstep
  · rename_i hguard
    obtain ⟨eng, heng, rfl⟩ := Option.map_eq_some_iff.mp hstep
    obtain ⟨hframe, hkind⟩ := hnext eng heng
    obtain ⟨hslots, hheld, hold, hover⟩ := hinv.engine e
    obtain ⟨hsame, hfree⟩ := over_step hslots hframe hkind fun hrel => by
      by_contra hsub
      exact hguard ⟨hrel, Bool.eq_false_of_not_eq_true hsub⟩
    refine hinv.setEngine ⟨hslots.step hframe hkind, fun s hs hnot => ?_, fun r hr => ?_,
      fun r hr => (hover r hr).trans (hsame r).symm⟩
    · rw [EpollEngine.current, hframe.tenancy]
      exact hheld s hs fun hmem => hnot (hfree hmem)
    · rw [hframe.tenancy]
      exact hold r hr

/-- The `fetch_sub` of a finalizer is the only one of its tenancy. -/
theorem finalizeSub (hinv : QuotaInv st) {e : Engine} {a : Agent} {r : Ref}
    (hat : (st.engine e).unrefAt a = some (r, .release)) (hsub : st.subtracted e a = false)
    (hprepare : (st.engine e).prepareAt a = none) :
    QuotaInv { st with
      connCount := st.connCount - 1
      subtracted := Function.update st.subtracted e (Function.update (st.subtracted e) a true)
      ended := insert (e, (st.engine e).current r.slot) st.ended } := by
  obtain ⟨hslots, hheld, hold, hover⟩ := hinv.engine e
  obtain ⟨hbound, hnot, -, -⟩ := hslots.finalizing hat (by rintro ⟨⟩) hprepare
  have hmem := hheld r.slot hbound hnot
  have hocc : (st.engine e).Occupies a r.slot := .inr ⟨r, .release, hat, (by rintro ⟨⟩), rfl⟩
  have hfresh : (e, (st.engine e).current r.slot) ∉ st.ended := by
    rw [hover _ hmem]
    rintro (hlt | hfree | ⟨b, hb⟩)
    · exact lt_irrefl _ hlt
    · exact hnot hfree
    · obtain rfl := hslots.unique b a r.slot hb.occupies hocc
      obtain ⟨-, ⟨-, hflag⟩ | ⟨t, ht⟩⟩ := (behind_iff hat).mp hb
      · rw [hsub] at hflag
        cases hflag
      · cases ht
  have hcard : (st.acquired \ insert (e, (st.engine e).current r.slot) st.ended).card + 1 =
      (st.acquired \ st.ended).card := by
    rw [Finset.sdiff_insert]
    exact Finset.card_erase_add_one (Finset.mem_sdiff.mpr ⟨hmem, hfresh⟩)
  have hcount := hinv.count
  have hbounded := hinv.bounded
  refine ⟨fun e' => ?_, hinv.range, ?_, ?_, ?_⟩
  · by_cases he : e' = e
    · subst he
      simp only [Function.update_self]
      refine ⟨hslots, hheld, hold, fun q hq => ?_⟩
      have hbehind : ∀ b t, Behind (st.engine e') (Function.update (st.subtracted e') a true) b t ↔
          Behind (st.engine e') (st.subtracted e') b t ∨ b = a ∧ r.slot = t := by
        intro b t
        by_cases hba : b = a
        · subst hba
          rw [behind_iff hat, behind_iff hat, Function.update_self, hsub]
          simp
        · unfold Behind
          rw [Function.update_of_ne hba]
          simp [hba]
      rw [Finset.mem_insert, hover q hq]
      constructor
      · rintro (heq | hlt | hfree | ⟨b, hb⟩)
        · obtain rfl := (Prod.mk.inj heq).2
          exact .inr (.inr ⟨a, (hbehind a r.slot).mpr (.inr ⟨rfl, rfl⟩)⟩)
        · exact .inl hlt
        · exact .inr (.inl hfree)
        · exact .inr (.inr ⟨b, (hbehind b q.slot).mpr (.inl hb)⟩)
      · rintro (hlt | hfree | ⟨b, hb⟩)
        · exact .inr (.inl hlt)
        · exact .inr (.inr (.inl hfree))
        · rcases (hbehind b q.slot).mp hb with hb | ⟨-, hslot⟩
          · exact .inr (.inr (.inr ⟨b, hb⟩))
          · rcases Nat.lt_or_eq_of_le (hold q hq).2 with hlt | heq
            · exact .inr (.inl hlt)
            · left
              rw [EpollEngine.current, hslot, ← heq]
    · obtain ⟨hslots', hheld', hold', hover'⟩ := hinv.engine e'
      simp only [Function.update_of_ne he]
      refine ⟨hslots', hheld', hold', fun q hq => ?_⟩
      rw [Finset.mem_insert, hover' q hq]
      exact or_iff_right fun heq => he (Prod.mk.inj heq).1
  · exact Finset.insert_subset hmem hinv.sub
  · have hnew : st.connCount - 1 = st.callers.card +
        (st.acquired \ insert (e, (st.engine e).current r.slot) st.ended).card := by
      rw [tenancies] at hcount
      omega
    exact hnew
  · have hnew : st.admitted.card +
        (st.acquired \ insert (e, (st.engine e).current r.slot) st.ended).card ≤
          maxConcurrentConns := by
      rw [tenancies] at hbounded
      omega
    exact hnew

theorem slotAcquire (hinv : QuotaInv st) {e : Engine} {h idx s : ℕ} {rest : List ℕ}
    {roles : List FdRole} {eng : EpollEngine} (hcaller : st.caller h = .acquire e)
    (hfree : (st.engine e).freeSlots = s :: rest)
    (hstep : (st.engine e).handoffStep e h idx roles = some eng) :
    QuotaInv { (st.setEngine e eng).setCaller h .idle with
      acquired := insert (e, eng.current s) st.acquired } := by
  obtain ⟨hslots, hheld, hold, hover⟩ := hinv.engine e
  obtain ⟨hslots', hunref⟩ := hslots.handoff hfree hstep
  obtain ⟨-, -, hfree', htenancy, -, -⟩ := handoffStep_spec hfree hstep
  have hh : h < handshakePoolSize := hinv.range h (by rw [hcaller]; rintro ⟨⟩)
  have hcurrent : eng.current s = ⟨s, (st.engine e).tenancy s + 1⟩ := by
    rw [EpollEngine.current, htenancy, Function.update_self]
  have hfresh : (e, eng.current s) ∉ st.acquired := by
    intro hmem
    have hle := (hold _ hmem).2
    rw [hcurrent] at hle
    exact absurd hle (by simp)
  have hfresh' : (e, eng.current s) ∉ st.ended := fun hmem => hfresh (hinv.sub hmem)
  have hbehind : ∀ a t, Behind eng (st.subtracted e) a t ↔
      Behind (st.engine e) (st.subtracted e) a t := by
    intro a t
    unfold Behind
    rw [hunref]
  have hvacant : s ∈ (st.engine e).freeSlots ∧ s ∉ rest := by
    refine ⟨by rw [hfree]; exact List.mem_cons_self, ?_⟩
    exact (List.nodup_cons.mp (hfree ▸ hslots.nodup)).1
  have hcard : (insert (e, eng.current s) st.acquired \ st.ended).card =
      (st.acquired \ st.ended).card + 1 := by
    rw [Finset.insert_sdiff_of_notMem _ hfresh']
    exact Finset.card_insert_of_notMem fun hmem => hfresh (Finset.mem_sdiff.mp hmem).1
  have hcallers := @callers_setCaller st h hh .idle
  have hadmitted := @admitted_setCaller st h hh .idle
  have hcount := hinv.count
  have hbounded := hinv.bounded
  simp only [hcaller, ne_eq, reduceCtorEq, not_false_eq_true, not_true_eq_false, and_self,
    false_and, if_true, if_false] at hcallers hadmitted
  refine ⟨fun e' => ?_, fun k hk => ?_, ?_, ?_, ?_⟩
  · by_cases he : e' = e
    · subst he
      simp only [QuotaState.setEngine, QuotaState.setCaller, Function.update_self]
      refine ⟨hslots', fun t ht hnot => ?_, fun r hr => ?_, fun r hr => ?_⟩
      · rw [hfree'] at hnot
        by_cases hts : t = s
        · subst hts
          exact Finset.mem_insert_self _ _
        · refine Finset.mem_insert_of_mem ?_
          have hmem := hheld t ht (by rw [hfree]; simpa [hts] using hnot)
          simpa [EpollEngine.current, htenancy, hts] using hmem
      · rw [htenancy]
        rcases Finset.mem_insert.mp hr with heq | hr
        · obtain rfl := (Prod.mk.inj heq).2
          exact ⟨(hslots.free s hvacant.1).1, by simp [EpollEngine.current, htenancy]⟩
        · refine ⟨(hold r hr).1, ?_⟩
          by_cases hrs : r.slot = s
          · rw [hrs, Function.update_self]
            exact Nat.le_succ_of_le (hrs ▸ (hold r hr).2)
          · rw [Function.update_of_ne hrs]
            exact (hold r hr).2
      · rcases Finset.mem_insert.mp hr with heq | hr
        · obtain rfl := (Prod.mk.inj heq).2
          refine iff_of_false hfresh' ?_
          rintro (hlt | hmem | ⟨a, ha⟩)
          · exact lt_irrefl _ hlt
          · rw [hfree'] at hmem
            exact hvacant.2 hmem
          · exact (hslots.occupied a s ((hbehind a s).mp ha).occupies).2.1 hvacant.1
        · rw [hover r hr]
          unfold Over
          simp only [hbehind, htenancy, hfree']
          by_cases hrs : r.slot = s
          · rw [hrs, Function.update_self]
            refine iff_of_true (.inr (.inl hvacant.1)) (.inl ?_)
            exact Nat.lt_succ_of_le (hrs ▸ (hold r hr).2)
          · rw [Function.update_of_ne hrs, hfree, List.mem_cons, or_iff_right hrs]
    · obtain ⟨hslots', hheld', hold', hover'⟩ := hinv.engine e'
      have hskip : ∀ {r}, (e', r) ∈ insert (e, eng.current s) st.acquired →
          (e', r) ∈ st.acquired := fun hr =>
        (Finset.mem_insert.mp hr).resolve_left fun heq => he (Prod.mk.inj heq).1
      simp only [QuotaState.setEngine, QuotaState.setCaller, Function.update_of_ne he]
      exact ⟨hslots', fun t ht hnot => Finset.mem_insert_of_mem (hheld' t ht hnot),
        fun r hr => hold' r (hskip hr), fun r hr => hover' r (hskip hr)⟩
  · by_cases hkh : k = h
    · exact hkh ▸ hh
    · exact hinv.range k (by simpa [QuotaState.setEngine, QuotaState.setCaller, hkh] using hk)
  · exact hinv.sub.trans (Finset.subset_insert _ _)
  · have hnew : st.connCount = (st.setCaller h .idle).callers.card +
        (insert (e, eng.current s) st.acquired \ st.ended).card := by
      rw [tenancies] at hcount
      omega
    exact hnew
  · have hnew : (st.setCaller h .idle).admitted.card +
        (insert (e, eng.current s) st.acquired \ st.ended).card ≤ maxConcurrentConns := by
      rw [tenancies] at hbounded
      omega
    exact hnew

theorem step (hinv : QuotaInv st) {ev : QuotaEvent} {st' : QuotaState}
    (hstep : quotaStep st ev = some st') : QuotaInv st' := by
  cases ev with
  | fetchAdd e h =>
      simp only [quotaStep] at hstep
      split at hstep
      · rename_i hready
        obtain rfl := Option.some.inj hstep
        obtain ⟨hh, hidle, -⟩ := hready
        by_cases hquota : maxConcurrentConns ≤ st.connCount
        · rw [if_pos hquota]
          exact hinv.call hh (by simp [hidle]) (by simp)
        · rw [if_neg hquota]
          refine hinv.call hh ?_ fun _ => .inr (not_le.mp hquota)
          split <;> simp [hidle]
      · cases hstep
  | connector h ok =>
      simp only [quotaStep] at hstep
      split at hstep
      · rename_i hcaller
        obtain rfl := Option.some.inj hstep
        have hh : h < handshakePoolSize := hinv.range h (by rw [hcaller]; nofun)
        refine hinv.call (n := st.connCount) hh ?_ fun _ => .inl (by simp [hcaller])
        cases ok <;> simp [hcaller]
      · cases hstep
  | slotAcquire h idx roles =>
      simp only [quotaStep] at hstep
      split at hstep
      · rename_i e hcaller
        obtain ⟨eng, heng, hst'⟩ := Option.map_eq_some_iff.mp hstep
        have hh : h < handshakePoolSize := hinv.range h (by rw [hcaller]; nofun)
        split at hst'
        · obtain rfl := hst'
          exact hinv.call (n := st.connCount) hh (by simp [hcaller]) fun _ => .inl (by simp [hcaller])
        · rename_i s rest hfree
          obtain rfl := hst'
          exact hinv.slotAcquire hcaller hfree heng
      · cases hstep
  | fetchSub h =>
      simp only [quotaStep] at hstep
      split at hstep
      · rename_i hcaller
        obtain rfl := Option.some.inj hstep
        have hbusy : st.caller h ≠ .idle := by
          rcases hcaller with h | h <;> rw [h] <;> exact nofun
        exact hinv.call (hinv.range h hbusy) (by simp [hbusy]) (by simp)
      · cases hstep
  | finalizeSub e a =>
      simp only [quotaStep] at hstep
      split at hstep
      · rename_i r hat hsub
        obtain rfl := Option.some.inj hstep
        refine hinv.finalizeSub hat hsub ?_
        cases a with
        | worker w => rfl
        | handshake h =>
            simp only [EpollEngine.unrefAt] at hat
            split at hat
            · rename_i hpc
              simp [EpollEngine.prepareAt, hpc]
            · cases hat
      · cases hstep
  | handshake e h ok => exact hinv.thread hstep fun eng heng => handshakeStep_kind heng
  | worker e w choice batch =>
      refine hinv.thread hstep fun eng heng => ?_
      simp only [engineStep] at heng
      split at heng
      · exact workerStep_kind heng
      · cases heng
  | quit =>
      obtain rfl := Option.some.inj hstep
      refine ⟨fun e => ?_, hinv.range, hinv.sub, hinv.count, hinv.bounded⟩
      obtain ⟨hslots, hheld, hold, hover⟩ := hinv.engine e
      exact ⟨{ hslots with }, hheld, hold, hover⟩

end QuotaInv

/-- In every reachable state the counter is the number of callers that have neither given their unit
back nor got a slot, and of tenancies whose finalizer has not given it back. What has been admitted
never exceeds the limit, and when all slots are free again the counter is 0. -/
theorem quota_conserved {evs : List QuotaEvent} {st : QuotaState}
    (hrun : run quotaStep QuotaState.init evs = some st) :
    st.connCount = st.callers.card + st.tenancies.card ∧ 0 ≤ st.connCount ∧
      (st.callers = ∅ → (∀ e, ∀ s < e.slotCount, s ∈ (st.engine e).freeSlots) →
        st.connCount = 0) ∧
      st.admitted.card + st.tenancies.card ≤ maxConcurrentConns := by
  have hinv : QuotaInv st :=
    run_invariant (P := QuotaInv) (fun _ _ _ h hstep => h.step hstep) QuotaInv.init hrun
  have hcount := hinv.count
  refine ⟨hcount, by omega, fun hcallers hfree => ?_, hinv.bounded⟩
  have hgone : st.tenancies = ∅ := by
    refine Finset.sdiff_eq_empty_iff_subset.mpr ?_
    rintro ⟨e, r⟩ hr
    obtain ⟨hslots, -, hold, hover⟩ := hinv.engine e
    rw [hover r hr]
    exact .inr (.inl (hfree e r.slot (hold r hr).1))
  rw [hcount, hcallers, hgone]
  rfl

def failedSetup : List QuotaEvent :=
  List.flatten [[.fetchAdd .tcp 0, .connector 0 true, .slotAcquire 0 0 [.client, .target]],
    List.replicate 11 (.handshake .tcp 0 true), List.replicate 4 (.handshake .tcp 0 false),
    [.finalizeSub .tcp (.handshake 0)], List.replicate 2 (.handshake .tcp 0 false)]

theorem quota_conserved_failedSetup : ∃ st, run quotaStep QuotaState.init failedSetup = some st ∧
    st.connCount = st.callers.card + st.tenancies.card ∧ 0 ≤ st.connCount ∧
      (st.callers = ∅ → (∀ e, ∀ s < e.slotCount, s ∈ (st.engine e).freeSlots) →
        st.connCount = 0) ∧
      st.admitted.card + st.tenancies.card ≤ maxConcurrentConns := by
  obtain ⟨st, hst⟩ := Option.isSome_iff_exists.mp
    (by decide +kernel : (run quotaStep QuotaState.init failedSetup).isSome = true)
  exact ⟨st, hst, quota_conserved hst⟩

end FiveGProxy
