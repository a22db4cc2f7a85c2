import FiveGProxy.Library.LinkedList
import FiveGProxy.Slots.Discipline

/-!
# The list of a worker and its five-second scan

The connections of a TCP worker hang together through `next` and `prev` in their slots, under
`list_lock`. Handshake threads put new ones in front (`handoff_to_worker`) and take them out again
when `epoll_ctl` fails; the worker takes out what had a fatal event, and what the scan of
`worker_loop_safe` finds expired. When the bucket is full the scan gives the lock back, unreferences
the bucket and goes on from the pointer that it has saved.

One worker in its loop and the threads that hand connections to it. The stores into a new slot are one
step, and so are the check of an event with the closing that follows it, and the two calls of
`epoll_ctl`. Slots of other workers change in any way, short of one that would make this worker take
an event of theirs for its own.
-/

namespace FiveGProxy

open Steps

/-- Where a thread is in `handoff_to_worker`. -/
inductive HandoffPc
  | idle
  | fill (r : Ref)
  | lock (r : Ref)
  /-- Behind `list_add_locked`, with the lock. -/
  | add (r : Ref)
  /-- Behind `list_remove_locked`, with the lock. -/
  | rollback (r : Ref)
  | register (r : Ref)
  | unref (r : Ref) (pc : UnrefPc)
  deriving DecidableEq, Repr

/-- Where the worker is; the connection and the pointer are those that the scan goes on with. -/
inductive ScanPc
  | events (left : ℕ)
  | scan (curr : Option ℕ)
  | unref (rest : List Ref) (pc : UnrefPc) (saved : Option (Ref × Option ℕ))
  | relock (keep : Ref) (next : Option ℕ)
  deriving DecidableEq, Repr

structure ListRun where
  links : Links ℕ
  conn : ℕ → Conn
  freeSlots : List ℕ
  tenancy : ℕ → ℕ
  /-- The slot is in the hands of other workers and of the threads that work for them. -/
  foreign : ℕ → Bool
  listLock : Option Agent
  garbage : List Ref
  worker : ScanPc
  handshake : ℕ → HandoffPc
  /-- What the timeouts say at the time of the scan. -/
  expired : Ref → Bool
  /-- The slots that were put on the list and not taken out since. -/
  members : List ℕ
  /-- The list at the start of the scan, and those of it that were registered. -/
  start : List Ref
  ready : List Ref
  /-- What the scan has come past, what it has collected, and what was put in front since it began. -/
  passed : List Ref
  collected : List Ref
  inserted : List Ref

inductive ListEvent
  /-- `slot_acquire` for this worker. -/
  | handoff (h : ℕ)
  | handshake (h : ℕ) (ok : Bool)
  | epollWait (n : ℕ)
  /-- The next event, and the connection that it closes. -/
  | event (fatal : Option ℕ)
  | noScan
  | scanStart (expired : Ref → Bool)
  /-- A step of the scan or of `conn_unref`. -/
  | worker
  /-- A slot is taken for another worker, changed, and given back. -/
  | take
  | touch (s : ℕ) (c : Conn) (next prev : Option ℕ)
  | give (s : ℕ)

namespace ListRun

def setConn (st : ListRun) (s : ℕ) (c : Conn) : ListRun :=
  { st with conn := Function.update st.conn s c }

def setHandshake (st : ListRun) (h : ℕ) (pc : HandoffPc) : ListRun :=
  { st with handshake := Function.update st.handshake h pc }

@[simp] theorem setConn_conn (st : ListRun) (s : ℕ) (c : Conn) : (st.setConn s c).conn s = c :=
  Function.update_self ..

/-- The connection that a pointer to slot `s` stands for now. -/
def current (st : ListRun) (s : ℕ) : Ref := ⟨s, st.tenancy s⟩

/-- `list_add_locked`. -/
def listAddLocked (st : ListRun) (r : Ref) : ListRun :=
  { st with
    links := st.links.pushFront r.slot
    members := r.slot :: st.members
    inserted := r :: st.inserted }

/-- `list_remove_locked`. -/
def listRemoveLocked (st : ListRun) (s : ℕ) : ListRun :=
  { st with
    links := st.links.unlink s
    members := st.members.erase s
    inserted := st.inserted.erase (st.current s) }

/-- `closed = 1` and `list_remove_locked`. -/
def close (st : ListRun) (s : ℕ) : ListRun :=
  (st.setConn s { st.conn s with closed := true }).listRemoveLocked s

def init : ListRun where
  links := { head := none, next := fun _ => none, prev := fun _ => none }
  conn := fun _ =>
    { slotState := false, gen := 1, magic := 0, refs := 0, finalized := false,
      registered := false, closed := false, widx := 0, slot := 0, epU64 := 0 }
  freeSlots := (List.range Engine.tcp.slotCount).reverse
  tenancy := fun _ => 0
  foreign := fun _ => false
  listLock := none
  garbage := []
  worker := .events 0
  handshake := fun _ => .idle
  expired := fun _ => false
  members := []
  start := []
  ready := []
  passed := []
  collected := []
  inserted := []

/-- One step of `conn_unref`, with `conn_finalize` behind it; `none` in the second place when it has
returned. -/
def unrefStep (me : ℕ) (st : ListRun) (r : Ref) : UnrefPc → Option (ListRun × Option UnrefPc)
  | .call =>
      let c := st.conn r.slot
      some (st.setConn r.slot { c with refs := c.refs - 1 },
        if c.refs = 1 then some .exchange else none)
  | .exchange =>
      let c := st.conn r.slot
      some (st.setConn r.slot { c with finalized := true },
        if c.finalized then none else some .poison)
  | .poison =>
      let c := st.conn r.slot
      if c.widx ≠ me then some (st.setConn r.slot { c with magic := 0 }, some .release)
      else if st.listLock = none then
        -- a connection that is still on the list is taken out
        let linked := (st.links.next r.slot).isSome ∨ (st.links.prev r.slot).isSome ∨
          st.links.head = some r.slot
        some ((if linked then st.listRemoveLocked r.slot else st).setConn r.slot
          { c with magic := 0 }, some .release)
      else none
  | .release =>
      let s := (st.conn r.slot).slot
      some (st.setConn s { st.conn s with slotState := false }, some (.push s))
  | .push s => some ({ st with freeSlots := s :: st.freeSlots }, none)

/-- The section of `slot_acquire`; without a free slot the connection is refused. -/
def handoffStep (st : ListRun) (h : ℕ) : Option ListRun :=
  if st.handshake h = .idle then
    match st.freeSlots with
    | [] => some st
    | s :: rest =>
        some { (st.setConn s { st.conn s with gen := (st.conn s).gen + 1 }).setHandshake h
            (.fill ⟨s, st.tenancy s + 1⟩) with
          freeSlots := rest
          tenancy := Function.update st.tenancy s (st.tenancy s + 1) }
  else none

/-- What `slot_acquire` and `handoff_to_worker` store into the slot. -/
def filled (me s : ℕ) (c : Conn) : Conn :=
  (slotAcquireStores c.gen ++ handoffStores .tcp me).foldl (Store.apply .tcp s) c

/-- `handoff_to_worker` from there on. -/
def handshakeStep (me : ℕ) (st : ListRun) (h : ℕ) (ok : Bool) : Option ListRun :=
  match st.handshake h with
  | .idle => none
  | .fill r =>
      -- memset clears the pointers; then the buffers
      some { (st.setConn r.slot (filled me r.slot (st.conn r.slot))).setHandshake h
          (if ok then .lock r else .unref r .call) with
        links := st.links.write r.slot none none }
  | .lock r =>
      if st.listLock = none then
        some { (st.listAddLocked r).setHandshake h (.add r) with
          listLock := some (.handshake h) }
      else none
  | .add r =>
      if ok then some { st.setHandshake h (.register r) with listLock := none }
      else some ((st.close r.slot).setHandshake h (.rollback r))
  | .rollback r => some { st.setHandshake h (.unref r .call) with listLock := none }
  | .register r =>
      some ((st.setConn r.slot { st.conn r.slot with registered := true }).setHandshake h .idle)
  | .unref r pc =>
      (st.unrefStep me r pc).map fun p =>
        p.1.setHandshake h (match p.2 with
          | some pc => .unref r pc
          | none => .idle)

def Passes (me : ℕ) (c : Conn) : Prop := Engine.tcp.checkSlot c.gen c.snapshot me = .process

instance (me : ℕ) (c : Conn) : Decidable (Passes me c) := inferInstanceAs (Decidable (_ = _))

def Collectable (st : ListRun) (s : ℕ) : Prop :=
  (st.conn s).magic = Engine.tcp.magic ∧ (st.conn s).closed = false ∧
    (st.conn s).registered = true ∧ st.expired (st.current s) = true

instance (st : ListRun) (s : ℕ) : Decidable (st.Collectable s) :=
  inferInstanceAs (Decidable (_ ∧ _))

def eventStep (me : ℕ) (st : ListRun) (fatal : Option ℕ) : Option ListRun :=
  match st.worker, fatal with
  | .events (n + 1), none => some { st with worker := .events n }
  | .events (n + 1), some s =>
      if st.listLock = none ∧ Passes me (st.conn s) then
        some { st.close s with garbage := st.garbage ++ [st.current s], worker := .events n }
      else none
  | _, _ => none

def scanStartStep (me : ℕ) (st : ListRun) (expired : Ref → Bool) : Option ListRun :=
  if st.worker = .events 0 ∧ st.listLock = none then
    some { st with
      listLock := some (.worker me)
      worker := .scan st.links.head
      expired := expired
      start := st.members.map st.current
      ready := (st.members.map st.current).filter fun r => (st.conn r.slot).registered
      passed := []
      collected := []
      inserted := [] }
  else none

def workerStep (me : ℕ) (st : ListRun) : Option ListRun :=
  match st.worker with
  | .events _ => none
  | .scan none => some { st with listLock := none, worker := .unref st.garbage .call none }
  | .scan (some s) =>
      let next := st.links.next s
      let passed := st.passed ++ [st.current s]
      if st.Collectable s then
        if st.garbage.length < maxEvents then
          some { st.close s with
            garbage := st.garbage ++ [st.current s]
            worker := .scan next
            passed := passed
            collected := st.collected ++ [st.current s] }
        else
          some { st.close s with
            listLock := none
            worker := .unref st.garbage .call (some (st.current s, next))
            passed := passed
            collected := st.collected ++ [st.current s] }
      else some { st with worker := .scan next, passed := passed }
  | .relock keep next =>
      if st.listLock = none then
        some { st with listLock := some (.worker me), garbage := [keep], worker := .scan next }
      else none
  | .unref (r :: rest) pc saved =>
      (st.unrefStep me r pc).map fun p =>
        { p.1 with worker := match p.2 with
          | some pc => .unref (r :: rest) pc saved
          | none => .unref rest .call saved }
  | .unref [] _ (some (keep, next)) => some { st with garbage := [], worker := .relock keep next }
  | .unref [] _ none => none

end ListRun

open ListRun in
/-- The list of worker `me`. -/
def listStep (me : ℕ) (st : ListRun) : ListEvent → Option ListRun
  | .handoff h => st.handoffStep h
  | .handshake h ok => st.handshakeStep me h ok
  | .epollWait n =>
      match st.worker with
      | .unref [] _ none =>
          if n ≤ maxEvents then some { st with garbage := [], worker := .events n } else none
      | _ => none
  | .event fatal => st.eventStep me fatal
  | .noScan =>
      if st.worker = .events 0 then some { st with worker := .unref st.garbage .call none } else none
  | .scanStart expired => st.scanStartStep me expired
  | .worker => st.workerStep me
  | .take =>
      match st.freeSlots with
      | [] => none
      | s :: rest =>
          some { st.setConn s { st.conn s with gen := (st.conn s).gen + 1 } with
            freeSlots := rest
            tenancy := Function.update st.tenancy s (st.tenancy s + 1)
            foreign := Function.update st.foreign s true }
  | .touch s c next prev =>
      if st.foreign s = true ∧ ¬Passes me c then
        some { st.setConn s c with
          links := st.links.write s next prev }
      else none
  | .give s =>
      if st.foreign s = true ∧ (st.conn s).slotState = false then
        some { st with
          freeSlots := s :: st.freeSlots
          foreign := Function.update st.foreign s false }
      else none

/-! ### What a step can do -/

namespace ListRun

variable {me : ℕ} {st st' : ListRun}

/-- Where the worker is behind a step of `conn_unref`. -/
def afterUnref (r : Ref) (rest : List Ref) (saved : Option (Ref × Option ℕ)) :
    Option UnrefPc → ScanPc
  | some pc => .unref (r :: rest) pc saved
  | none => .unref rest .call saved

/-- Where a thread is behind a step of `conn_unref`. -/
def threadUnref (r : Ref) : Option UnrefPc → HandoffPc
  | some pc => .unref r pc
  | none => .idle

inductive HandoffTransition (me : ℕ) (st : ListRun) (h : ℕ) : ListRun → Prop
  | refused (hpc : st.handshake h = .idle) (hfree : st.freeSlots = []) :
      HandoffTransition me st h st
  | acquire (s rest) (hpc : st.handshake h = .idle) (hfree : st.freeSlots = s :: rest) :
      HandoffTransition me st h
        { (st.setConn s { st.conn s with gen := (st.conn s).gen + 1 }).setHandshake h
            (.fill ⟨s, st.tenancy s + 1⟩) with
          freeSlots := rest
          tenancy := Function.update st.tenancy s (st.tenancy s + 1) }
  | fill (r) (ok : Bool) (hpc : st.handshake h = .fill r) :
      HandoffTransition me st h
        { (st.setConn r.slot (filled me r.slot (st.conn r.slot))).setHandshake h
            (if ok then .lock r else .unref r .call) with
          links := st.links.write r.slot none none }
  | lock (r) (hpc : st.handshake h = .lock r) (hfree : st.listLock = none) :
      HandoffTransition me st h
        { (st.listAddLocked r).setHandshake h (.add r) with listLock := some (.handshake h) }
  | added (r) (hpc : st.handshake h = .add r) :
      HandoffTransition me st h { st.setHandshake h (.register r) with listLock := none }
  | addFailed (r) (hpc : st.handshake h = .add r) :
      HandoffTransition me st h ((st.close r.slot).setHandshake h (.rollback r))
  | rollback (r) (hpc : st.handshake h = .rollback r) :
      HandoffTransition me st h { st.setHandshake h (.unref r .call) with listLock := none }
  | register (r) (hpc : st.handshake h = .register r) :
      HandoffTransition me st h
        ((st.setConn r.slot { st.conn r.slot with registered := true }).setHandshake h .idle)
  | unref (r pc st₁ u) (hpc : st.handshake h = .unref r pc)
      (hunref : st.unrefStep me r pc = some (st₁, u)) :
      HandoffTransition me st h (st₁.setHandshake h (threadUnref r u))

theorem handoffStep_transition {h : ℕ} (hstep : st.handoffStep h = some st') :
    HandoffTransition me st h st' := by
  unfold handoffStep at hstep
  split at hstep
  case isFalse => cases hstep
  case isTrue hidle =>
    split at hstep
    · cases hstep
      exact .refused hidle ‹_›
    · cases hstep
      exact .acquire _ _ hidle ‹_›

theorem handshakeStep_transition {h : ℕ} {ok : Bool} (hstep : st.handshakeStep me h ok = some st') :
    HandoffTransition me st h st' := by
  unfold handshakeStep at hstep
  split at hstep
  case h_1 => cases hstep
  case h_2 r hpc =>
    cases hstep
    exact .fill r ok hpc
  case h_3 r hpc =>
    split at hstep
    case isTrue hfree =>
      cases hstep
      exact .lock r hpc hfree
    case isFalse => cases hstep
  case h_4 r hpc =>
    split at hstep
    case isTrue =>
      cases hstep
      exact .added r hpc
    case isFalse =>
      cases hstep
      exact .addFailed r hpc
  case h_5 r hpc =>
    cases hstep
    exact .rollback r hpc
  case h_6 r hpc =>
    cases hstep
    exact .register r hpc
  case h_7 r pc hpc =>
    obtain ⟨⟨st₁, u⟩, hunref, rfl⟩ := Option.map_eq_some_iff.mp hstep
    cases u with
    | none => exact .unref r pc st₁ none hpc hunref
    | some u => exact .unref r pc st₁ (some u) hpc hunref

inductive ScanTransition (me : ℕ) (st : ListRun) : ListRun → Prop
  | scanEnd (hpc : st.worker = .scan none) :
      ScanTransition me st { st with listLock := none, worker := .unref st.garbage .call none }
  | collect (s) (hpc : st.worker = .scan (some s)) (hcollect : st.Collectable s)
      (hroom : st.garbage.length < maxEvents) :
      ScanTransition me st
        { st.close s with
          garbage := st.garbage ++ [st.current s]
          worker := .scan (st.links.next s)
          passed := st.passed ++ [st.current s]
          collected := st.collected ++ [st.current s] }
  | bucketFull (s) (hpc : st.worker = .scan (some s)) (hcollect : st.Collectable s)
      (hfull : maxEvents ≤ st.garbage.length) :
      ScanTransition me st
        { st.close s with
          listLock := none
          worker := .unref st.garbage .call (some (st.current s, st.links.next s))
          passed := st.passed ++ [st.current s]
          collected := st.collected ++ [st.current s] }
  | skip (s) (hpc : st.worker = .scan (some s)) (hskip : ¬st.Collectable s) :
      ScanTransition me st
        { st with worker := .scan (st.links.next s), passed := st.passed ++ [st.current s] }
  | relock (keep next) (hpc : st.worker = .relock keep next) (hfree : st.listLock = none) :
      ScanTransition me st
        { st with listLock := some (.worker me), garbage := [keep], worker := .scan next }
  | unref (r rest pc saved st₁ u) (hpc : st.worker = .unref (r :: rest) pc saved)
      (hunref : st.unrefStep me r pc = some (st₁, u)) :
      ScanTransition me st { st₁ with worker := afterUnref r rest saved u }
  | bucketEmpty (pc keep next) (hpc : st.worker = .unref [] pc (some (keep, next))) :
      ScanTransition me st { st with garbage := [], worker := .relock keep next }

theorem workerStep_transition (hstep : st.workerStep me = some st') :
    ScanTransition me st st' := by
  unfold workerStep at hstep
  split at hstep
  case h_1 => cases hstep
  case h_2 hpc =>
    cases hstep
    exact .scanEnd hpc
  case h_3 s hpc =>
    dsimp only at hstep
    split at hstep
    case isTrue hcollect =>
      split at hstep
      case isTrue hroom =>
        cases hstep
        exact .collect s hpc hcollect hroom
      case isFalse hfull =>
        cases hstep
        exact .bucketFull s hpc hcollect (Nat.le_of_not_lt hfull)
    case isFalse hskip =>
      cases hstep
      exact .skip s hpc hskip
  case h_4 keep next hpc =>
    split at hstep
    case isTrue hfree =>
      cases hstep
      exact .relock keep next hpc hfree
    case isFalse => cases hstep
  case h_5 r rest pc saved hpc =>
    obtain ⟨⟨st₁, u⟩, hunref, rfl⟩ := Option.map_eq_some_iff.mp hstep
    cases u with
    | none => exact .unref r rest pc saved st₁ none hpc hunref
    | some u => exact .unref r rest pc saved st₁ (some u) hpc hunref
  case h_6 pc keep next hpc =>
    cases hstep
    exact .bucketEmpty pc keep next hpc
  case h_7 => cases hstep

/-- What a step of the list can do. -/
inductive Transition (me : ℕ) (st : ListRun) : ListEvent → ListRun → Prop
  | handoff (h) {st' : ListRun} (ht : HandoffTransition me st h st') : Transition me st (.handoff h) st'
  | handshake (h ok) {st' : ListRun} (ht : HandoffTransition me st h st') :
      Transition me st (.handshake h ok) st'
  | epollWait (n pc) (hpc : st.worker = .unref [] pc none) (hn : n ≤ maxEvents) :
      Transition me st (.epollWait n) { st with garbage := [], worker := .events n }
  | event (n) (hpc : st.worker = .events (n + 1)) :
      Transition me st (.event none) { st with worker := .events n }
  | fatal (n s) (hpc : st.worker = .events (n + 1)) (hfree : st.listLock = none)
      (hpass : Passes me (st.conn s)) :
      Transition me st (.event (some s))
        { st.close s with garbage := st.garbage ++ [st.current s], worker := .events n }
  | noScan (hpc : st.worker = .events 0) :
      Transition me st .noScan { st with worker := .unref st.garbage .call none }
  | scanStart (expired) (hpc : st.worker = .events 0) (hfree : st.listLock = none) :
      Transition me st (.scanStart expired)
        { st with
          listLock := some (.worker me)
          worker := .scan st.links.head
          expired := expired
          start := st.members.map st.current
          ready := (st.members.map st.current).filter fun r => (st.conn r.slot).registered
          passed := []
          collected := []
          inserted := [] }
  | worker {st' : ListRun} (ht : ScanTransition me st st') : Transition me st .worker st'
  | take (s rest) (hfree : st.freeSlots = s :: rest) :
      Transition me st .take
        { st.setConn s { st.conn s with gen := (st.conn s).gen + 1 } with
          freeSlots := rest
          tenancy := Function.update st.tenancy s (st.tenancy s + 1)
          foreign := Function.update st.foreign s true }
  | touch (s c next prev) (hforeign : st.foreign s = true) (hpass : ¬Passes me c) :
      Transition me st (.touch s c next prev)
        { st.setConn s c with
          links := st.links.write s next prev }
  | give (s) (hforeign : st.foreign s = true) (hstate : (st.conn s).slotState = false) :
      Transition me st (.give s)
        { st with
          freeSlots := s :: st.freeSlots
          foreign := Function.update st.foreign s false }

theorem transition_of_step {ev : ListEvent} (hstep : listStep me st ev = some st') :
    Transition me st ev st' := by
  cases ev with
  | handoff h => exact .handoff h (handoffStep_transition hstep)
  | handshake h ok => exact .handshake h ok (handshakeStep_transition hstep)
  | epollWait n =>
      simp only [listStep] at hstep
      split at hstep
      case h_1 pc hpc =>
        split at hstep
        case isTrue hn =>
          cases hstep
          exact .epollWait n pc hpc hn
        case isFalse => cases hstep
      case h_2 => cases hstep
  | event fatal =>
      simp only [listStep, eventStep] at hstep
      split at hstep
      case h_1 n hpc =>
        cases hstep
        exact .event n hpc
      case h_2 n s hpc =>
        split at hstep
        case isTrue hready =>
          cases hstep
          exact .fatal n s hpc hready.1 hready.2
        case isFalse => cases hstep
      case h_3 => cases hstep
  | noScan =>
      simp only [listStep] at hstep
      split at hstep
      case isTrue hpc =>
        cases hstep
        exact .noScan hpc
      case isFalse => cases hstep
  | scanStart expired =>
      simp only [listStep, scanStartStep] at hstep
      split at hstep
      case isTrue hready =>
        cases hstep
        exact .scanStart expired hready.1 hready.2
      case isFalse => cases hstep
  | worker => exact .worker (workerStep_transition hstep)
  | take =>
      simp only [listStep] at hstep
      split at hstep
      case h_1 => cases hstep
      case h_2 s rest hfree =>
        cases hstep
        exact .take s rest hfree
  | touch s c next prev =>
      simp only [listStep] at hstep
      split at hstep
      case isTrue hready =>
        cases hstep
        exact .touch s c next prev hready.1 hready.2
      case isFalse => cases hstep
  | give s =>
      simp only [listStep] at hstep
      split at hstep
      case isTrue hready =>
        cases hstep
        exact .give s hready.1 hready.2
      case isFalse => cases hstep

end ListRun

end FiveGProxy
