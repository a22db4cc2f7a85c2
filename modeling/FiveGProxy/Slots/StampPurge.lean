import FiveGProxy.Config
import FiveGProxy.Library.Descriptors
import FiveGProxy.Library.OverwriteRing
import FiveGProxy.Library.Steps
import Mathlib.Data.List.FinRange

/-!
# Stamps and their purge

`ghost_stamp_record` notes which numbers a connection was registered under, with the inodes behind
them, in a ring that overwrites. `stamp_purge` takes the numbers of an identifier out of the epoll
instances of the workers: first the noted numbers themselves, when `fstat` still finds the noted
inode behind them, and then, once in 200 ms, whatever number of `/proc/self/fd` has such an inode.

The kernel answers a removal by the number. Between the `fstat` and the removal the other threads go
on, so every call of the kernel and every section under a lock is a step of its own.
-/

namespace FiveGProxy

open Steps

abbrev stampRingSize : ℕ := 4096

abbrev scanIntervalMs : ℤ := 200

/-- The descriptors of the process with the epoll instances of the workers, which
`ghost_purge_set_epoll_fds` has been given. -/
abbrev FdTable := Descriptors ℤ (BitVec 64) (Fin workerCount)

/-- `(st_dev << 32) | st_ino` of the descriptor, zero when there is none. -/
def FdTable.inoOf (t : FdTable) (fd : ℤ) : BitVec 64 := if 0 ≤ fd then (t.fstat fd).getD 0 else 0

/-- `c_match`, `t_match`: the number still has the inode that was noted. -/
def FdTable.stillHas (t : FdTable) (fd : ℤ) (ino : BitVec 64) : Bool :=
  decide (0 ≤ fd ∧ ino ≠ 0 ∧ t.fstat fd = some ino)

/-- `stamp_ent_t`. -/
structure StampEnt where
  u64 : BitVec 64
  clientFd : ℤ
  targetFd : ℤ
  widx : ℕ
  cIno : BitVec 64
  tIno : BitVec 64
  deriving DecidableEq

namespace StampEnt

def blank : StampEnt := ⟨0, 0, 0, 0, 0, 0⟩

/-- `(cino && id == cino) || (tino && id == tino)`. -/
def hasIno (e : StampEnt) (id : BitVec 64) : Bool :=
  (decide (e.cIno ≠ 0) && id == e.cIno) || (decide (e.tIno ≠ 0) && id == e.tIno)

def quickDels (e : StampEnt) (cMatch tMatch : Bool) : List (Fin workerCount × ℤ) :=
  (List.finRange workerCount).flatMap fun w =>
    (if cMatch then [(w, e.clientFd)] else []) ++ (if tMatch then [(w, e.targetFd)] else [])

/-- The removals for one number of `/proc/self/fd`. -/
def scanDels (e : StampEnt) (t : FdTable) (n : ℤ) : List (Fin workerCount × ℤ) :=
  if (t.fstat n).any e.hasIno then (List.finRange workerCount).map fun w => (w, n) else []

end StampEnt

/-- Where a worker is in `stamp_purge`. `quick` and `scan` carry the removals that are still to be
made. -/
inductive PurgePc
  | idle
  | statClient (e : StampEnt)
  | statTarget (e : StampEnt) (cMatch : Bool)
  | quick (e : StampEnt) (dels : List (Fin workerCount × ℤ))
  | claim (e : StampEnt) (prevMs nowMs : ℤ)
  | scan (e : StampEnt) (dels : List (Fin workerCount × ℤ))
  deriving DecidableEq

/-- Where a thread is in `ghost_stamp_record`. -/
inductive RecordPc
  | idle
  | statTarget (e : StampEnt)
  | store (e : StampEnt)

structure PurgeState where
  fds : FdTable
  gStampRing : Fin stampRingSize → StampEnt
  gStampRingPos : BitVec 32
  gLastScanMs : ℤ
  pc : Fin workerCount → PurgePc
  recording : ℕ → RecordPc

/-- The first five are steps of any thread. A record is made by a thread `i`, a purge by a worker. -/
inductive PurgeEvent
  | openFd (fd : ℤ) (ino : BitVec 64)
  | dupFd (fd fd' : ℤ)
  | closeFd (fd : ℤ)
  | epollAdd (w : Fin workerCount) (fd : ℤ)
  | epollDel (w : Fin workerCount) (fd : ℤ)
  | recordClient (i : ℕ) (u64 : BitVec 64) (clientFd targetFd : ℤ) (widx : ℕ)
  | recordTarget (i : ℕ)
  | recordStore (i : ℕ)
  | purge (v : Fin workerCount) (u64 : BitVec 64)
  | statClient (v : Fin workerCount)
  | statTarget (v : Fin workerCount)
  | del (v : Fin workerCount)
  | clock (v : Fin workerCount) (nowMs : ℤ)
  | claim (v : Fin workerCount) (opendir : Bool)
  | readdir (v : Fin workerCount) (n : ℤ)
  | closedir (v : Fin workerCount)

def PurgeEvent.purger : PurgeEvent → Option (Fin workerCount)
  | .statClient v | .statTarget v | .del v | .clock v _ | .claim v _ | .readdir v _ | .closedir v =>
      some v
  | _ => none

/-- The number that is read from `/proc/self/fd`. -/
def PurgeEvent.number : PurgeEvent → Option ℤ
  | .readdir _ n => some n
  | _ => none

theorem stampPlace_lt (pos : BitVec 32) : (pos &&& 4095#32).toNat < stampRingSize := by
  rw [BitVec.toNat_and]
  exact Nat.lt_succ_of_le Nat.and_le_right

/-- `pos & STAMP_RING_MASK`. -/
def stampPlace (pos : BitVec 32) : Fin stampRingSize := ⟨(pos &&& 4095#32).toNat, stampPlace_lt pos⟩

namespace PurgeState

def init : PurgeState where
  fds := .empty 0
  gStampRing := fun _ => .blank
  gStampRingPos := 0
  gLastScanMs := 0
  pc := fun _ => .idle
  recording := fun _ => .idle

def ring (s : PurgeState) : OverwriteRing StampEnt stampRingSize :=
  ⟨s.gStampRing, stampPlace s.gStampRingPos⟩

def setFds (s : PurgeState) (t : FdTable) : PurgeState := { s with fds := t }

def setPc (s : PurgeState) (v : Fin workerCount) (pc : PurgePc) : PurgeState :=
  { s with pc := Function.update s.pc v pc }

def setRecording (s : PurgeState) (i : ℕ) (pc : RecordPc) : PurgeState :=
  { s with recording := Function.update s.recording i pc }

/-- The section of `ghost_stamp_record` under `g_stamp_lock`. -/
def store (s : PurgeState) (e : StampEnt) : PurgeState :=
  { s with
    gStampRing := Function.update s.gStampRing (stampPlace s.gStampRingPos) e
    gStampRingPos := s.gStampRingPos + 1 }

/-- The section of `stamp_purge` under `g_stamp_lock`. -/
def lookup (s : PurgeState) (u64 : BitVec 64) : Option StampEnt := s.ring.find fun e => e.u64 == u64

def step : Step PurgeState PurgeEvent := fun s ev =>
  match ev with
  | .openFd fd ino => if 0 ≤ fd then (s.fds.openFd fd ino).map s.setFds else none
  | .dupFd fd fd' => if 0 ≤ fd' then (s.fds.dup fd fd').map s.setFds else none
  | .closeFd fd => (s.fds.close fd).map s.setFds
  | .epollAdd w fd => some (s.setFds (s.fds.epollAdd w fd))
  | .epollDel w fd => some (s.setFds (s.fds.epollDel w fd))
  | .recordClient i u64 clientFd targetFd widx =>
      match s.recording i with
      | .idle => some (s.setRecording i
          (.statTarget ⟨u64, clientFd, targetFd, widx, s.fds.inoOf clientFd, 0⟩))
      | .statTarget _ | .store _ => none
  | .recordTarget i =>
      match s.recording i with
      | .statTarget e => some (s.setRecording i (.store { e with tIno := s.fds.inoOf e.targetFd }))
      | .idle | .store _ => none
  | .recordStore i =>
      match s.recording i with
      | .store e => some ((s.store e).setRecording i .idle)
      | .idle | .statTarget _ => none
  | .purge v u64 =>
      match s.pc v, s.lookup u64 with
      | .idle, some e => some (s.setPc v (.statClient e))
      | .idle, none => some s
      | _, _ => none
  | .statClient v =>
      match s.pc v with
      | .statClient e => some (s.setPc v (.statTarget e (s.fds.stillHas e.clientFd e.cIno)))
      | _ => none
  | .statTarget v =>
      match s.pc v with
      | .statTarget e cMatch =>
          some (s.setPc v (.quick e (e.quickDels cMatch (s.fds.stillHas e.targetFd e.tIno))))
      | _ => none
  | .del v =>
      match s.pc v with
      | .quick e (p :: dels) =>
          some ((s.setFds (s.fds.epollDel p.1 p.2)).setPc v (.quick e dels))
      | .scan e (p :: dels) =>
          some ((s.setFds (s.fds.epollDel p.1 p.2)).setPc v (.scan e dels))
      | _ => none
  | .clock v nowMs =>
      match s.pc v with
      | .quick e [] =>
          if nowMs - s.gLastScanMs < scanIntervalMs then some (s.setPc v .idle)
          else some (s.setPc v (.claim e s.gLastScanMs nowMs))
      | _ => none
  | .claim v opendir =>
      match s.pc v with
      | .claim e prevMs nowMs =>
          if s.gLastScanMs = prevMs then
            some (setPc { s with gLastScanMs := nowMs } v (if opendir then .scan e [] else .idle))
          else some (s.setPc v .idle)
      | _ => none
  | .readdir v n =>
      match s.pc v with
      | .scan e [] => some (s.setPc v (.scan e (e.scanDels s.fds n)))
      | _ => none
  | .closedir v =>
      match s.pc v with
      | .scan _ [] => some (s.setPc v .idle)
      | _ => none

end PurgeState

/-- A record that has been made, with the descriptions that its two numbers stood for. -/
structure Stamp where
  ent : StampEnt
  client : Option ℕ
  target : Option ℕ

/-- The records in the order in which they were stored, and for each worker the identifier it purges,
the last records at its call, and the numbers that have been closed since it has begun to check the
numbers it removes next. -/
structure PurgeLog where
  stamps : List Stamp
  taking : ℕ → Option ℕ × Option ℕ
  called : Fin workerCount → BitVec 64 × List Stamp
  closed : Fin workerCount → ℤ → Bool
  /-- The clock readings of the scans that were claimed. -/
  scans : List ℤ

namespace PurgeLog

def empty : PurgeLog := ⟨[], fun _ => (none, none), fun _ => (0, []), fun _ _ => false, []⟩

def setTaking (log : PurgeLog) (i : ℕ) (p : Option ℕ × Option ℕ) : PurgeLog :=
  { log with taking := Function.update log.taking i p }

def setClosed (log : PurgeLog) (v : Fin workerCount) (f : ℤ → Bool) : PurgeLog :=
  { log with closed := Function.update log.closed v f }

end PurgeLog

def recordPurge (s : PurgeState) (ev : PurgeEvent) (log : PurgeLog) : PurgeLog :=
  match ev with
  | .closeFd fd => { log with closed := fun v n => decide (n = fd) || log.closed v n }
  | .recordClient i _ clientFd _ _ => log.setTaking i (s.fds.files clientFd, none)
  | .recordTarget i =>
      match s.recording i with
      | .statTarget e => log.setTaking i ((log.taking i).1, s.fds.files e.targetFd)
      | .idle | .store _ => log
  | .recordStore i =>
      match s.recording i with
      | .store e => { log with stamps := log.stamps ++ [⟨e, (log.taking i).1, (log.taking i).2⟩] }
      | .idle | .statTarget _ => log
  | .purge v u64 =>
      { log with called :=
          Function.update log.called v (u64, OverwriteRing.recent stampRingSize log.stamps) }
  | .statClient v => log.setClosed v fun _ => false
  | .readdir v _ => log.setClosed v fun _ => false
  | .claim v _ =>
      match s.pc v with
      | .claim _ prevMs nowMs =>
          if s.gLastScanMs = prevMs then { log with scans := log.scans ++ [nowMs] } else log
      | _ => log
  | _ => log

end FiveGProxy
