import FiveGProxy.Library.Steps
import FiveGProxy.Slots.Identifier
import Mathlib.Logic.Function.Basic

/-!
# Slots, workers and handshake threads

Connections live in a fixed table of slots. A handshake thread acquires a slot, fills it in and
puts it on the list of a worker (`handoff_to_worker`, `udp_start_session`); the worker collects it
and gives the slot back (`worker_loop_safe`, `udp_worker_loop`). `EpollEngine` is the state of one
of the two engines, `engineStep` one step of one thread: an access to a field of a slot, a section
under `g_slot_lock`, or a short section under a `list_lock`. The longer sections, the registration,
the timeout scan and the draining at the end, hold their `list_lock` over several steps.

What a connection relays is kept out; whether an event is fatal, a connection has timed out or a
system call fails is left open. The doubly linked list of a worker is a list of slots. Registering
again with `EPOLL_CTL_MOD` hands out `ep_u64` once more and adds no identifier. The round robin over
the workers is left open as well.

`tenancy` counts the increments of the generation of a slot without wrapping, so that a slot and its
tenancy name one connection; no step looks at it.
-/

namespace FiveGProxy

open Steps

/-- The fields of `full_conn_t` and `udp_conn_t` by which threads agree on who uses the slot, and
the entry of the slot in `g_slot_state`. -/
structure Conn where
  slotState : Bool
  gen : BitVec 32
  magic : BitVec 32
  refs : ℤ
  finalized : Bool
  registered : Bool
  closed : Bool
  widx : ℕ
  slot : ℕ
  epU64 : BitVec 64
  deriving DecidableEq, Repr

/-- A connection: one tenancy of a slot. -/
structure Ref where
  slot : ℕ
  tenancy : ℕ
  deriving DecidableEq, Repr

inductive Agent
  | worker (w : ℕ)
  | handshake (h : ℕ)
  deriving DecidableEq, Repr

/-! ### Filling in a slot -/

/-- A store of a handshake thread into a slot that it has acquired. -/
inductive Store
  | clear
  | gen (g : BitVec 32)
  | slot
  | slotState
  | refs
  | registered
  | finalized
  | widx (i : ℕ)
  | magic
  | epU64
  deriving DecidableEq, Repr

/-- The effect of the store on slot `s`. -/
def Store.apply (e : Engine) (s : ℕ) (c : Conn) : Store → Conn
  -- memset; g_slot_state is an array of its own
  | clear =>
      { slotState := c.slotState, gen := 0, magic := 0, refs := 0, finalized := false,
        registered := false, closed := false, widx := 0, slot := 0, epU64 := 0 }
  | gen g => { c with gen := g }
  | slot => { c with slot := s }
  | slotState => { c with slotState := true }
  | refs => { c with refs := 1 }
  | registered => { c with registered := false }
  | finalized => { c with finalized := false }
  | widx i => { c with widx := i }
  | magic => { c with magic := e.magic }
  | epU64 => { c with epU64 := epKey c.gen s }

/-- `slot_acquire` and `udp_slot_acquire` after the section under the lock. -/
def slotAcquireStores (newGen : BitVec 32) : List Store := [.clear, .gen newGen, .slot, .slotState]

/-- The first stores of `handoff_to_worker` and of `udp_start_session`. -/
def handoffStores : Engine → ℕ → List Store
  | .tcp, idx => [.refs, .registered, .finalized, .widx idx, .magic, .epU64]
  | .udp, idx => [.magic, .widx idx, .epU64, .refs, .finalized, .registered]

/-! ### Reading a slot for an event -/

inductive Field
  | gen
  | magic
  | slotState
  | widx
  | closed
  | registered
  deriving DecidableEq, Repr

/-- The arguments of `conn_event_check_slot` that are read from the slot. -/
structure Snapshot where
  gen : BitVec 32
  magic : BitVec 32
  slotState : Bool
  widx : ℕ
  closed : Bool
  registered : Bool
  deriving DecidableEq, Repr

def Conn.snapshot (c : Conn) : Snapshot :=
  { gen := c.gen, magic := c.magic, slotState := c.slotState, widx := c.widx, closed := c.closed,
    registered := c.registered }

def Snapshot.read (v : Snapshot) (c : Conn) : Field → Snapshot
  | .gen => { v with gen := c.gen }
  | .magic => { v with magic := c.magic }
  | .slotState => { v with slotState := c.slotState }
  | .widx => { v with widx := c.widx }
  | .closed => { v with closed := c.closed }
  | .registered => { v with registered := c.registered }

def Snapshot.blank : Snapshot :=
  { gen := 0, magic := 0, slotState := false, widx := 0, closed := false, registered := false }

namespace Engine

/-- The fields that a worker reads for an event, in the order of the arguments. -/
def fields : Engine → List Field
  | tcp => [.gen, .magic, .slotState, .widx, .closed, .registered]
  | udp => [.gen, .magic, .slotState, .closed, .registered]

def checkSlot (e : Engine) (egen : BitVec 32) (v : Snapshot) (myWidx : ℕ) : EventDisp :=
  match e with
  | tcp =>
      connEventCheckSlot egen v.gen v.magic v.slotState v.widx myWidx v.closed v.registered
  | udp => udpEventCheckSlot egen v.gen v.magic v.slotState v.closed v.registered

end Engine

/-! ### Threads -/

/-- `conn_unref` and `conn_finalize`. -/
inductive UnrefPc
  | call
  | exchange
  | poison
  | release
  | push (slot : ℕ)
  deriving DecidableEq, Repr

/-- Where a handshake thread is; `r` is the connection it works on, `idx` the worker chosen. -/
inductive HandshakePc
  | idle
  | prepare (r : Ref) (idx : ℕ) (roles : List FdRole) (todo : List Store)
  | setup (r : Ref) (idx : ℕ) (roles : List FdRole)
  | lock (r : Ref) (idx : ℕ) (roles : List FdRole)
  | locked (r : Ref) (idx : ℕ) (roles : List FdRole)
  | add (r : Ref) (idx : ℕ) (roles : List FdRole)
  | rollback (r : Ref) (idx : ℕ)
  | stamp (r : Ref)
  | register (r : Ref)
  | unref (r : Ref) (pc : UnrefPc)
  deriving DecidableEq, Repr

/-- Where a handshake thread goes when its descriptors are registered; only TCP records a stamp. -/
def HandshakePc.added (e : Engine) (r : Ref) : HandshakePc :=
  match e with
  | .tcp => .stamp r
  | .udp => .register r

/-- What a worker does after it has unreferenced some connections. -/
inductive AfterUnref
  | loop
  | relock (keep : Ref) (next : Option ℕ)
  | drained (full : Bool)
  | close
  deriving DecidableEq, Repr

inductive WorkerPc
  | loopTest
  | wait
  | events (batch : List (BitVec 64))
  | check (raw : BitVec 64) (todo : List Field) (seen : Snapshot) (batch : List (BitVec 64))
  | process (slot : ℕ) (batch : List (BitVec 64))
  | fatal (slot : ℕ) (batch : List (BitVec 64))
  | scanLock
  | scan (curr : Option ℕ)
  | relock (keep : Ref) (next : Option ℕ)
  | unref (rest : List Ref) (pc : UnrefPc) (next : AfterUnref)
  | stop
  | drainLock
  | drain (collected : List Ref)
  | exited
  deriving DecidableEq, Repr

/-- A call of `conn_unref`: the connection it was made for, and the tenancy of the slot whose `refs`
it decremented. -/
structure UnrefCall where
  ref : Ref
  appliedTo : ℕ
  deriving DecidableEq, Repr

/-- An identifier that `epoll_ctl` was given. -/
structure Issued where
  raw : BitVec 64
  ref : Ref
  role : FdRole
  deriving DecidableEq, Repr

/-- An event that passed the check: what was decoded, and the connection in the slot then. -/
structure Verdict where
  worker : ℕ
  raw : BitVec 64
  role : FdRole
  ref : Ref
  conn : Conn
  deriving DecidableEq, Repr

structure EpollEngine where
  serverRunning : Bool
  conn : ℕ → Conn
  /-- `g_free_slots`, the top of the stack first. -/
  freeSlots : List ℕ
  tenancy : ℕ → ℕ
  connList : ℕ → List ℕ
  listLock : ℕ → Option Agent
  stopping : ℕ → Bool
  worker : ℕ → WorkerPc
  /-- `garbage_list`, the first `garbage_count` entries. -/
  garbage : ℕ → List Ref
  handshake : ℕ → HandshakePc
  unrefs : List UnrefCall
  issued : List Issued
  verdicts : List Verdict

/-- One step of one thread. `ok` and `choice` resolve what is left open in the step; `batch` is what
`epoll_wait` returns. -/
inductive EngineEvent
  | quit
  | restart
  | handoff (h idx : ℕ) (roles : List FdRole)
  | handshake (h : ℕ) (ok : Bool)
  | worker (w : ℕ) (choice : Bool) (batch : List (BitVec 64))
  deriving DecidableEq, Repr

namespace EpollEngine

def setConn (st : EpollEngine) (s : ℕ) (c : Conn) : EpollEngine :=
  { st with conn := Function.update st.conn s c }

def setList (st : EpollEngine) (w : ℕ) (l : List ℕ) : EpollEngine :=
  { st with connList := Function.update st.connList w l }

def setLock (st : EpollEngine) (w : ℕ) (holder : Option Agent) : EpollEngine :=
  { st with listLock := Function.update st.listLock w holder }

def setGarbage (st : EpollEngine) (w : ℕ) (l : List Ref) : EpollEngine :=
  { st with garbage := Function.update st.garbage w l }

def setWorker (st : EpollEngine) (w : ℕ) (pc : WorkerPc) : EpollEngine :=
  { st with worker := Function.update st.worker w pc }

def setHandshake (st : EpollEngine) (h : ℕ) (pc : HandshakePc) : EpollEngine :=
  { st with handshake := Function.update st.handshake h pc }

/-- The connection that a pointer to slot `s` stands for now. -/
def current (st : EpollEngine) (s : ℕ) : Ref := ⟨s, st.tenancy s⟩

/-- `slots_init` with the resetting of the workers, as `listener_task` does at every start. -/
def slotsInit (e : Engine) (st : EpollEngine) : EpollEngine :=
  { st with
    serverRunning := true
    conn := fun s =>
      { st.conn s with
        gen := if (st.conn s).gen = 0 then 1 else (st.conn s).gen
        slotState := false }
    tenancy := fun s => if (st.conn s).gen = 0 then st.tenancy s + 1 else st.tenancy s
    freeSlots := (List.range e.slotCount).reverse
    connList := fun _ => []
    listLock := fun _ => none
    stopping := fun _ => false
    worker := fun _ => .loopTest
    garbage := fun _ => []
    handshake := fun _ => .idle }

/-- The state after the first start: static memory is zero, and `slots_init` has set every
generation to 1. -/
def init (e : Engine) : EpollEngine where
  serverRunning := true
  conn := fun _ =>
    { slotState := false, gen := 1, magic := 0, refs := 0, finalized := false,
      registered := false, closed := false, widx := 0, slot := 0, epU64 := 0 }
  freeSlots := (List.range e.slotCount).reverse
  tenancy := fun _ => 0
  connList := fun _ => []
  listLock := fun _ => none
  stopping := fun _ => false
  worker := fun _ => .loopTest
  garbage := fun _ => []
  handshake := fun _ => .idle
  unrefs := []
  issued := []
  verdicts := []

/-- One step of `conn_unref`, which goes on with `conn_finalize` when it was the last reference;
`none` in the second place when it has returned. -/
def unrefStep (st : EpollEngine) (r : Ref) : UnrefPc → Option (EpollEngine × Option UnrefPc)
  | .call =>
      let c := st.conn r.slot
      some ({ st.setConn r.slot { c with refs := c.refs - 1 } with
          unrefs := st.unrefs ++ [⟨r, st.tenancy r.slot⟩] },
        if c.refs = 1 then some .exchange else none)
  | .exchange =>
      let c := st.conn r.slot
      some (st.setConn r.slot { c with finalized := true },
        if c.finalized then none else some .poison)
  | .poison =>
      let c := st.conn r.slot
      if st.listLock c.widx = none then
        some ((st.setConn r.slot { c with magic := 0 }).setList c.widx
            ((st.connList c.widx).erase r.slot), some .release)
      else none
  | .release =>
      let s := (st.conn r.slot).slot
      some (st.setConn s { st.conn s with slotState := false }, some (.push s))
  | .push s => some ({ st with freeSlots := s :: st.freeSlots }, none)

/-- The section of `slot_acquire` under `g_slot_lock`, and the choice of a worker. Without a free
slot the connection is refused. -/
def handoffStep (e : Engine) (st : EpollEngine) (h idx : ℕ) (roles : List FdRole) :
    Option EpollEngine :=
  if st.handshake h = .idle ∧ h < handshakePoolSize ∧ idx < e.workerCount ∧
      roles ∈ e.roleLists then
    match st.freeSlots with
    | [] => some st
    | s :: rest =>
        let newGen := (st.conn s).gen + 1
        some { (st.setConn s { st.conn s with gen := newGen }).setHandshake h
            (.prepare ⟨s, st.tenancy s + 1⟩ idx roles
              (slotAcquireStores newGen ++ handoffStores e idx)) with
          freeSlots := rest
          tenancy := Function.update st.tenancy s (st.tenancy s + 1) }
  else none

/-- `handoff_to_worker` and `udp_start_session` from there on. -/
def handshakeStep (e : Engine) (st : EpollEngine) (h : ℕ) (ok : Bool) : Option EpollEngine :=
  match st.handshake h with
  | .idle => none
  | .prepare r idx roles (x :: todo) =>
      some ((st.setConn r.slot (x.apply e r.slot (st.conn r.slot))).setHandshake h
        (.prepare r idx roles todo))
  | .prepare r idx roles [] => some (st.setHandshake h (.setup r idx roles))
  | .setup r idx roles =>
      -- the buffers, and the sockets of a UDP session
      if ok then
        match e with
        | .tcp =>
            some ((st.setConn r.slot { st.conn r.slot with closed := false }).setHandshake h
              (.lock r idx roles))
        | .udp => some (st.setHandshake h (.lock r idx roles))
      else
        some (st.setHandshake h (.unref r .call))
  | .lock r idx roles =>
      if st.listLock idx = none then
        some ((st.setLock idx (some (.handshake h))).setHandshake h (.locked r idx roles))
      else none
  | .locked r idx roles =>
      if st.stopping idx then
        some ((st.setLock idx none).setHandshake h (.unref r .call))
      else
        some ((st.setList idx (r.slot :: st.connList idx)).setHandshake h (.add r idx roles))
  | .add r idx (role :: roles) =>
      if ok then
        some { st.setHandshake h (.add r idx roles) with
          issued := st.issued ++ [⟨(st.conn r.slot).epU64 ||| e.roleFlag role, r, role⟩] }
      else
        some (((st.setConn r.slot { st.conn r.slot with closed := true }).setList idx
          ((st.connList idx).erase r.slot)).setHandshake h (.rollback r idx))
  | .add r idx [] => some ((st.setLock idx none).setHandshake h (.added e r))
  | .rollback r idx => some ((st.setLock idx none).setHandshake h (.unref r .call))
  -- ghost_stamp_record reads ep_u64 from the slot
  | .stamp r => some (st.setHandshake h (.register r))
  | .register r =>
      some ((st.setConn r.slot { st.conn r.slot with registered := true }).setHandshake h .idle)
  | .unref r pc =>
      (st.unrefStep r pc).map fun p =>
        p.1.setHandshake h (match p.2 with
          | some pc => .unref r pc
          | none => .idle)

/-- The element after `s`. -/
def next : List ℕ → ℕ → Option ℕ
  | [], _ => none
  | a :: l, s => if a = s then l.head? else next l s

/-- `conn->next`. -/
def nextConn (e : Engine) (st : EpollEngine) (s : ℕ) : Option ℕ :=
  (List.range e.workerCount).findSome? fun w => next (st.connList w) s

/-- `epoll_wait` may return any identifier that was ever handed out, to any worker. -/
def Deliverable (e : Engine) (st : EpollEngine) (batch : List (BitVec 64)) : Prop :=
  batch.length ≤ maxEvents ∧
    ∀ raw ∈ batch, raw = 0 ∨ e = .udp ∧ raw = udpEvDnsWake ∨ raw ∈ st.issued.map Issued.raw

instance (e : Engine) (st : EpollEngine) (batch : List (BitVec 64)) :
    Decidable (st.Deliverable e batch) :=
  -- by the elements of the batch, not by all values of 64 bits
  haveI := List.decidableBAll (fun raw : BitVec 64 => raw = 0 ∨ e = .udp ∧ raw = udpEvDnsWake ∨
    raw ∈ st.issued.map Issued.raw) batch
  instDecidableAnd

def Scannable (e : Engine) (st : EpollEngine) (s : ℕ) : Prop :=
  (st.conn s).magic = e.magic ∧ (st.conn s).closed = false ∧ (st.conn s).registered = true

instance (e : Engine) (st : EpollEngine) (s : ℕ) : Decidable (st.Scannable e s) :=
  inferInstanceAs (Decidable (_ ∧ _))

/-- `closed = 1` and `list_remove_locked`. -/
def unlink (st : EpollEngine) (w s : ℕ) : EpollEngine :=
  (st.setConn s { st.conn s with closed := true }).setList w ((st.connList w).erase s)

def slotOf (e : Engine) (raw : BitVec 64) : ℕ := (e.decode raw).sidx.toNat

/-- `worker_loop_safe` and `udp_worker_loop`. -/
def workerStep (e : Engine) (st : EpollEngine) (w : ℕ) (choice : Bool)
    (batch : List (BitVec 64)) : Option EpollEngine :=
  match st.worker w with
  | .loopTest =>
      if st.serverRunning then some ((st.setGarbage w []).setWorker w .wait)
      else some (st.setWorker w .stop)
  | .wait =>
      if st.Deliverable e batch then some (st.setWorker w (.events batch)) else none
  | .events [] =>
      -- every 5 seconds
      if choice then some (st.setWorker w .scanLock)
      else some (st.setWorker w (.unref (st.garbage w) .call .loop))
  | .events (raw :: rest) =>
      if raw = 0 then some (st.setWorker w .stop)
      else if e = .udp ∧ udpEventIsDnsWake raw = true then some (st.setWorker w (.events rest))
      else if eventBadSlot (e.decode raw).sidx.toInt e.slotCount then
        some (st.setWorker w (.events rest))
      else some (st.setWorker w (.check raw e.fields .blank rest))
  | .check raw (f :: todo) seen rest =>
      some (st.setWorker w (.check raw todo (seen.read (st.conn (slotOf e raw)) f) rest))
  | .check raw [] seen rest =>
      if e.checkSlot (e.decode raw).egen seen w = .process then
        some { st.setWorker w (.process (slotOf e raw) rest) with
          verdicts := st.verdicts ++ [⟨w, raw, (e.decode raw).role, st.current (slotOf e raw),
            st.conn (slotOf e raw)⟩] }
      else some (st.setWorker w (.events rest))
  | .process s rest =>
      if choice then some (st.setWorker w (.fatal s rest)) else some (st.setWorker w (.events rest))
  | .fatal s rest =>
      if st.listLock w = none then
        if (st.conn s).closed then some (st.setWorker w (.events rest))
        else if e = .udp ∧ maxEvents ≤ (st.garbage w).length then
          some ((st.unlink w s).setWorker w (.events rest))
        else
          some (((st.unlink w s).setGarbage w (st.garbage w ++ [st.current s])).setWorker w
            (.events rest))
      else none
  | .scanLock =>
      if st.listLock w = none then
        some ((st.setLock w (some (.worker w))).setWorker w (.scan (st.connList w).head?))
      else none
  | .scan none =>
      some ((st.setLock w none).setWorker w (.unref (st.garbage w) .call .loop))
  | .scan (some s) =>
      if choice = true ∧ st.Scannable e s then
        if (st.garbage w).length < maxEvents then
          some (((st.unlink w s).setGarbage w (st.garbage w ++ [st.current s])).setWorker w
            (.scan (st.nextConn e s)))
        else
          match e with
          | .tcp =>
              some (((st.unlink w s).setLock w none).setWorker w
                (.unref (st.garbage w) .call (.relock (st.current s) (st.nextConn e s))))
          | .udp => some ((st.unlink w s).setWorker w (.scan (st.nextConn e s)))
      else some (st.setWorker w (.scan (st.nextConn e s)))
  | .relock keep nxt =>
      if st.listLock w = none then
        some (((st.setLock w (some (.worker w))).setGarbage w [keep]).setWorker w (.scan nxt))
      else none
  | .unref (r :: rest) pc k =>
      (st.unrefStep r pc).map fun p =>
        p.1.setWorker w (match p.2 with
          | some pc => .unref (r :: rest) pc k
          | none => .unref rest .call k)
  | .unref [] _ k =>
      match k with
      | .loop => some (st.setWorker w .loopTest)
      | .relock keep nxt => some ((st.setGarbage w []).setWorker w (.relock keep nxt))
      | .drained full =>
          some (st.setWorker w (if full then .drainLock else .unref (st.garbage w) .call .close))
      | .close => some (st.setWorker w .exited)
  | .stop =>
      if st.listLock w = none then
        some { st.setWorker w .drainLock with stopping := Function.update st.stopping w true }
      else none
  | .drainLock =>
      if st.listLock w = none then
        some ((st.setLock w (some (.worker w))).setWorker w (.drain []))
      else none
  | .drain collected =>
      match st.connList w with
      | s :: rest =>
          if collected.length < maxEvents then
            if (st.conn s).magic = e.magic then
              some (((st.setConn s { st.conn s with closed := true }).setList w rest).setWorker w
                (.drain (collected ++ [st.current s])))
            else some ((st.setList w rest).setWorker w (.drain collected))
          else
            some ((st.setLock w none).setWorker w (.unref collected .call (.drained true)))
      | [] =>
          some ((st.setLock w none).setWorker w (.unref collected .call
            (.drained (decide (maxEvents ≤ collected.length)))))
  | .exited => none

def AllEnded (e : Engine) (st : EpollEngine) : Prop :=
  (∀ w < e.workerCount, st.worker w = .exited) ∧ ∀ h < handshakePoolSize, st.handshake h = .idle

instance (e : Engine) (st : EpollEngine) : Decidable (st.AllEnded e) :=
  inferInstanceAs (Decidable (_ ∧ _))

end EpollEngine

open EpollEngine in
def engineStep (e : Engine) (st : EpollEngine) : EngineEvent → Option EpollEngine
  | .quit => some { st with serverRunning := false }
  | .restart => if st.AllEnded e then some (st.slotsInit e) else none
  | .handoff h idx roles => st.handoffStep e h idx roles
  | .handshake h ok => st.handshakeStep e h ok
  | .worker w choice batch =>
      if w < e.workerCount then st.workerStep e w choice batch else none

end FiveGProxy
