import FiveGProxy.Kernel.Socket
import FiveGProxy.Protocol.Datagram

/-!
# Decisions and buffers of the relay

The pure decisions of `conn_forward.c` and the buffer of one direction with the loop of
`try_send`. The loop is cut at its calls of `send`: `trySendTurn` is what happens between two of
them, so that whatever else runs in between can be placed there.
-/

namespace FiveGProxy

open Memory

/-- A mask of `CONN_FWD_*` bits. -/
structure FwdEvents where
  fwdRdhup : Bool
  fwdIn : Bool
  fwdOut : Bool
  deriving DecidableEq

def connForwardInterest (closed clientEof targetEof c2tPending t2cPending : Bool) :
    FwdEvents × FwdEvents :=
  if closed then (⟨false, false, false⟩, ⟨false, false, false⟩)
  else
    (⟨!clientEof, !clientEof && !c2tPending, t2cPending⟩,
      ⟨!targetEof, !targetEof && !t2cPending, c2tPending⟩)

/-- `CONN_FWD_GRACE_SEC`. -/
def connFwdGraceSec : Time := 2

/-- `eof_since` is zero before a FIN. -/
def connForwardGraceExpired (now eofSince grace : Time) : Bool :=
  if eofSince = 0 then false else eofSince + grace ≤ now

def mapFwdToEpoll (fwd : FwdEvents) : EpollEvents where
  epollin := fwd.fwdIn
  epollout := fwd.fwdOut
  epollrdhup := fwd.fwdRdhup
  epollerr := false
  epollhup := false

/-- The three fields of one direction: `c2t_buf`, `c2t_len` and `c2t_off`, or those of `t2c`. -/
structure Pipe where
  buf : ℕ → UInt8
  len : ℕ
  off : ℕ

def Pipe.pending (p : Pipe) : List UInt8 := slice p.buf p.off (p.len - p.off)

/-- The return value of `try_send`: -1, 0 or 1. -/
inductive SendRet where
  | failed
  | blocked
  | drained
  deriving DecidableEq

/-- What one turn of `try_send` leaves behind; `ret` is there when it returns. -/
structure SendTurn where
  pipe : Pipe
  sock : StreamSocket
  accepted : List UInt8
  ret : Option SendRet

/-- One turn of `try_send`: up to and with the next `send`, which the kernel answers with `r`, or
to the end when no call is made. -/
def trySendTurn (fd : ℤ) (p : Pipe) (sock : StreamSocket) : Option SendResult → Option SendTurn
  | none =>
      if fd < 0 then some ⟨p, sock, [], some .failed⟩
      else if p.off < p.len then none
      else some ⟨{ p with len := 0, off := 0 }, sock, [], some .drained⟩
  | some r =>
      if fd < 0 then none
      else if p.off < p.len then
        match r with
        | .again => if sock.room = 0 then some ⟨p, sock, [], some .blocked⟩ else none
        | .error _ => some ⟨p, sock, [], some .failed⟩
        | .sent k =>
            if sock.room = 0 then none
            else
              let n := min (SendResult.count k (p.len - p.off)) sock.room
              let sock' := { sock with room := sock.room - n }
              let out := slice p.buf p.off n
              if p.off + n < p.len then some ⟨{ p with off := p.off + n }, sock', out, none⟩
              else some ⟨{ p with len := 0, off := 0 }, sock', out, some .drained⟩
      else none

/-- Everything a turn of `try_send` can do. -/
inductive TrySends (fd : ℤ) (p : Pipe) (sock : StreamSocket) : SendTurn → Prop
  | noFd (hfd : fd < 0) : TrySends fd p sock ⟨p, sock, [], some .failed⟩
  | empty (hoff : p.len ≤ p.off) :
      TrySends fd p sock ⟨{ p with len := 0, off := 0 }, sock, [], some .drained⟩
  | blocked (hroom : sock.room = 0) : TrySends fd p sock ⟨p, sock, [], some .blocked⟩
  | failed : TrySends fd p sock ⟨p, sock, [], some .failed⟩
  | part (n : ℕ) (hn : 0 < n) (hlt : p.off + n < p.len) :
      TrySends fd p sock ⟨{ p with off := p.off + n }, { sock with room := sock.room - n },
        slice p.buf p.off n, none⟩
  | rest (n : ℕ) (hn : 0 < n) (heq : p.off + n = p.len) :
      TrySends fd p sock ⟨{ p with len := 0, off := 0 }, { sock with room := sock.room - n },
        slice p.buf p.off n, some .drained⟩

theorem trySendTurn_spec {fd : ℤ} {p : Pipe} {sock : StreamSocket} {r : Option SendResult}
    {t : SendTurn} (h : trySendTurn fd p sock r = some t) : TrySends fd p sock t := by
  cases r with
  | none =>
      simp only [trySendTurn] at h
      split_ifs at h with hfd hoff
      · cases h
        exact .noFd hfd
      · cases h
        exact .empty (Nat.not_lt.mp hoff)
  | some r =>
      by_cases hfd : fd < 0
      · simp [trySendTurn, hfd] at h
      by_cases hoff : p.off < p.len
      · simp only [trySendTurn, if_neg hfd, if_pos hoff] at h
        cases r with
        | again =>
            by_cases hroom : sock.room = 0
            · simp only [if_pos hroom] at h
              cases h
              exact .blocked hroom
            · simp [hroom] at h
        | error e =>
            cases h
            exact .failed
        | sent k =>
            by_cases hroom : sock.room = 0
            · simp [hroom] at h
            have hn : 0 < min (SendResult.count k (p.len - p.off)) sock.room := by
              rw [SendResult.count]
              omega
            have hle : min (SendResult.count k (p.len - p.off)) sock.room ≤ p.len - p.off := by
              rw [SendResult.count]
              omega
            simp only [if_neg hroom] at h
            split_ifs at h with hmore
            · cases h
              exact .part _ hn hmore
            · cases h
              exact .rest _ hn (by omega)
      · simp [trySendTurn, hfd, hoff] at h

/-- `send` does not touch what was received. -/
theorem TrySends.sock_eq {fd : ℤ} {p : Pipe} {sock : StreamSocket} {t : SendTurn}
    (h : TrySends fd p sock t) :
    t.sock.rx = sock.rx ∧ t.sock.fin = sock.fin ∧ t.sock.finRead = sock.finRead := by
  cases h <;> exact ⟨rfl, rfl, rfl⟩

end FiveGProxy
