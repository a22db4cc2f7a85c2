import FiveGProxy.Library.Steps
import FiveGProxy.UdpDns.Model
import Mathlib.Data.List.Nodup

/-!
# Listeners

The listener thread keeps one listening socket for each address it is told to serve and for
loopback. It compares its table with the wanted addresses about once a second
(`reconcile_listeners`), since the kernel may abort or close a listener when its interface goes
away, and the number of a closed descriptor may be taken by any other socket of the process. What
stands behind a descriptor is asked with `getsockopt` and `getsockname`.

The environment acts between two calls of the engine, and answers each attempt to open a listener.
`serial`, `opened`, `tries`, `closes` and `refused` are not in the code.
-/

namespace FiveGProxy

open Steps

def maxBindAddrs : ℕ := 16

def maxListeners : ℕ := maxBindAddrs + 2

/-- `INET6_ADDRSTRLEN`. -/
def inet6AddrStrLen : ℕ := 46

/-- `inet_pton` and `inet_ntop`. -/
structure InetText extends InetPton where
  ntop : IpAddr → List UInt8

namespace InetText

/-- The address for which `add_listener_for_ip` opens a socket. -/
def parse (inet : InetText) (ip : List UInt8) : Option IpAddr :=
  match inet.v4 ip with
  | some a => some (.v4 a)
  | none => (inet.v6 ip).map .v6

/-- The text is the one that `inet_ntop` writes for the address that `inet_pton` reads from it. -/
def Canonical (inet : InetText) (ip : List UInt8) : Prop :=
  ∃ a, inet.parse ip = some a ∧ inet.ntop a = ip

theorem Canonical.parse_inj {inet : InetText} {ip ip' : List UInt8} (h : inet.Canonical ip)
    (h' : inet.Canonical ip') (heq : inet.parse ip = inet.parse ip') : ip = ip' := by
  obtain ⟨a, hparse, rfl⟩ := h
  obtain ⟨b, hparse', rfl⟩ := h'
  rw [hparse, hparse'] at heq
  rw [Option.some.inj heq]

end InetText

def IpAddr.unspecified : IpAddr → IpAddr
  | .v4 _ => .v4 (Vector.replicate 4 0)
  | .v6 _ => .v6 (Vector.replicate 16 0)

/-- A TCP port; for 0 the kernel would choose one. -/
structure Port where
  val : ℕ
  pos : 0 < val
  fits : val < 2 ^ 16

/-- An open descriptor. -/
structure OsFile where
  /-- `SO_ACCEPTCONN`; `none` when `getsockopt` fails. -/
  acceptConn : Option Bool
  /-- `getsockname`; `none` when it fails or the family is another. -/
  name : Option (IpAddr × ℕ)
  /-- Which socket of `add_listener_for_ip` it is, if it is one. -/
  serial : Option ℕ
  deriving DecidableEq

/-- The descriptors of the process. -/
structure Fds where
  file : ℕ → Option OsFile
  limit : ℕ
  closed : ∀ fd, limit ≤ fd → file fd = none

namespace Fds

def empty : Fds := ⟨fun _ => none, 0, fun _ _ => rfl⟩

def lowest (t : Fds) : ℕ :=
  ((List.range t.limit).find? fun fd => (t.file fd).isNone).getD t.limit

theorem file_lowest (t : Fds) : t.file t.lowest = none := by
  unfold lowest
  cases hfind : (List.range t.limit).find? fun fd => (t.file fd).isNone with
  | none => exact t.closed _ (le_refl _)
  | some fd => simpa using List.find?_some hfind

def set (t : Fds) (fd : ℕ) (f : OsFile) : Fds where
  file := Function.update t.file fd (some f)
  limit := max t.limit (fd + 1)
  closed := by
    intro k hk
    have hle := max_le_iff.mp hk
    rw [Function.update_of_ne (by omega)]
    exact t.closed k hle.1

def close (t : Fds) (fd : ℕ) : Fds where
  file := Function.update t.file fd none
  limit := t.limit
  closed := by
    intro k hk
    by_cases hkf : k = fd
    · rw [hkf, Function.update_self]
    · rw [Function.update_of_ne hkf]
      exact t.closed k hk

@[simp] theorem set_file (t : Fds) (fd : ℕ) (f : OsFile) :
    (t.set fd f).file = Function.update t.file fd (some f) := rfl

@[simp] theorem close_file (t : Fds) (fd : ℕ) :
    (t.close fd).file = Function.update t.file fd none := rfl

end Fds

/-- An entry of `g_listener_fds` and `g_listener_addrs`. -/
structure ListenerSlot where
  fd : ℕ
  addr : List UInt8
  deriving DecidableEq

/-- `127.0.0.1`. -/
def loopback4 : List UInt8 := [49, 50, 55, 46, 48, 46, 48, 46, 49]

/-- `::1`. -/
def loopback6 : List UInt8 := [58, 58, 49]

def isPermanentAddr (ip : List UInt8) : Bool := ip == loopback4 || ip == loopback6

def addrInList (ip : List UInt8) (list : List (List UInt8)) : Bool := list.contains ip

structure Listeners where
  serverRunning : Bool
  /-- The listener thread runs. -/
  thread : Bool
  /-- `socks5_server_quit` has cleared `server_running` and not yet closed the listeners. -/
  quitting : Bool
  /-- `g_bind_addrs`. -/
  bindAddrs : List (List UInt8)
  /-- The first `g_listener_count` entries. -/
  slots : List ListenerSlot
  fds : Fds
  /-- The number of sockets that `add_listener_for_ip` has opened so far. -/
  opened : ℕ
  /-- The number of times it has called `socket`. -/
  tries : ℕ
  /-- The descriptors on which `close` was called, with what stood behind them. -/
  closes : List (ℕ × Option OsFile)
  /-- The addresses for which there was no slot. -/
  refused : List (List UInt8)

/-- What becomes of an attempt to listen on an address. -/
inductive ListenOutcome
  | noSocket
  | bindFails
  | listenFails
  | ok
  deriving DecidableEq

inductive ListenerEvent
  | start
  | setBindAddrs (addrs : List (List UInt8))
  /-- One round, with the outcome of the attempt that has the number, on the address. -/
  | reconcile (outcome : ℕ → IpAddr → ListenOutcome)
  /-- `listener_task` returns because nothing could be bound. -/
  | startFailed
  /-- `socks5_server_quit` up to the lock, and its section under the lock. -/
  | quit
  | quitClose
  /-- The end of `listener_task`. -/
  | exit
  /-- The kernel aborts the listener behind the descriptor. -/
  | abort (fd : ℕ)
  /-- The kernel, or another part of the process, closes the descriptor. -/
  | closeFd (fd : ℕ)
  /-- Another part of the process opens a descriptor. -/
  | openFd (acceptConn : Option Bool) (name : Option (IpAddr × ℕ))

namespace Listeners

def init : Listeners where
  serverRunning := false
  thread := false
  quitting := false
  bindAddrs := []
  slots := []
  fds := .empty
  opened := 0
  tries := 0
  closes := []
  refused := []

def addrs (st : Listeners) : List (List UInt8) := st.slots.map ListenerSlot.addr

/-- `close`, after `shutdown` or without it. -/
def closeListener (st : Listeners) (fd : ℕ) : Listeners :=
  { st with fds := st.fds.close fd, closes := st.closes ++ [(fd, st.fds.file fd)] }

section

variable (inet : InetText) (port : Port)

def listenerIsOurs (fds : Fds) (s : ListenerSlot) : Bool :=
  match fds.file s.fd with
  | none => false
  | some f =>
      if f.acceptConn = some true then
        match f.name with
        | some (a, p) => decide (p = port.val) && decide (inet.ntop a = s.addr)
        | none => false
      else false

def openSocket (st : Listeners) (acceptConn : Bool) (name : IpAddr × ℕ) : Listeners :=
  { st with
    fds := st.fds.set st.fds.lowest ⟨some acceptConn, some name, some st.opened⟩
    opened := st.opened + 1 }

def addListenerForIp (outcome : ℕ → IpAddr → ListenOutcome) (st : Listeners) (ip : List UInt8) :
    Listeners :=
  if maxListeners ≤ st.slots.length then { st with refused := st.refused ++ [ip] }
  else
    match inet.parse ip with
    | none => st
    | some a =>
        let fd := st.fds.lowest
        let tried := { st with tries := st.tries + 1 }
        match outcome st.tries a with
        | .noSocket => tried
        | .bindFails => (tried.openSocket false (a.unspecified, 0)).closeListener fd
        | .listenFails => (tried.openSocket false (a, port.val)).closeListener fd
        | .ok =>
            { tried.openSocket true (a, port.val) with
              slots := st.slots ++ [⟨fd, ip.take (inet6AddrStrLen - 1)⟩] }

def dropListenerSlot (st : Listeners) (i : ℕ) : Listeners :=
  match st.slots[i]? with
  | none => st
  | some s =>
      { (if listenerIsOurs inet port st.fds s then st.closeListener s.fd else st) with
        slots := st.slots.eraseIdx i }

/-- The address is loopback or in `desired`. -/
def wanted (desired : List (List UInt8)) (ip : List UInt8) : Bool :=
  isPermanentAddr ip || addrInList ip desired

/-- The loop over the slots; `fuel` bounds the number of turns. -/
def pruneLoop (desired : List (List UInt8)) : ℕ → ℕ → Listeners → Listeners
  | 0, _, st => st
  | fuel + 1, i, st =>
      match st.slots[i]? with
      | none => st
      | some s =>
          if wanted desired s.addr && listenerIsOurs inet port st.fds s then
            pruneLoop desired fuel (i + 1) st
          else pruneLoop desired fuel i (st.dropListenerSlot inet port i)

def addMissing (outcome : ℕ → IpAddr → ListenOutcome) (st : Listeners) (ip : List UInt8) : Listeners :=
  if addrInList ip st.addrs then st else st.addListenerForIp inet port outcome ip

def reconcileListeners (outcome : ℕ → IpAddr → ListenOutcome) (st : Listeners) : Listeners :=
  if st.serverRunning then
    let desired := st.bindAddrs
    let st := st.pruneLoop inet port desired st.slots.length 0
    desired.foldl (addMissing inet port outcome)
      ((st.addMissing inet port outcome loopback4).addMissing inet port outcome loopback6)
  else st

end

/-- The closing of all listeners in `socks5_server_quit` and at the end of `listener_task`. -/
def closeAll (st : Listeners) : Listeners :=
  { st.slots.foldl (fun st s => st.closeListener s.fd) st with slots := [] }

def setBindAddrs (st : Listeners) (addrs : List (List UInt8)) : Listeners :=
  { st with
    bindAddrs := ((addrs.filter (· ≠ [])).take maxBindAddrs).map (·.take (inet6AddrStrLen - 1)) }

end Listeners

open Listeners in
def listenerStep (inet : InetText) (port : Port) (st : Listeners) :
    ListenerEvent → Option Listeners
  | .start =>
      if st.serverRunning = false ∧ st.thread = false ∧ st.quitting = false then
        some { st with serverRunning := true, thread := true, slots := [] }
      else none
  | .setBindAddrs addrs => some (st.setBindAddrs addrs)
  | .reconcile outcome =>
      if st.thread then some (st.reconcileListeners inet port outcome) else none
  | .startFailed =>
      if st.thread = true ∧ st.slots = [] then
        some { st with serverRunning := false, thread := false }
      else none
  | .quit =>
      if st.serverRunning then some { st with serverRunning := false, quitting := true } else none
  | .quitClose => if st.quitting then some { st.closeAll with quitting := false } else none
  | .exit =>
      if st.thread = true ∧ st.serverRunning = false then some { st.closeAll with thread := false }
      else none
  | .abort fd =>
      match st.fds.file fd with
      | some f => some { st with fds := st.fds.set fd { f with acceptConn := some false } }
      | none => none
  | .closeFd fd => some { st with fds := st.fds.close fd }
  | .openFd acceptConn name =>
      some { st with fds := st.fds.set st.fds.lowest ⟨acceptConn, name, none⟩ }

end FiveGProxy
