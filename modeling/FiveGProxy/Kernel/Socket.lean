import Mathlib.Data.List.Basic

/-!
# Results of the socket calls

What the kernel may answer to the calls the engine makes on non-blocking sockets. A call that
asks for `n` bytes is answered with at most `n` of them: the payload of an answer is cut to the
request by `RecvResult.bytes` and `SendResult.count`, so that every list of answers is one the
kernel can give. `EAGAIN` and `EWOULDBLOCK` are the same answer, `again`.
-/

namespace FiveGProxy

/-- Seconds, as `time_t`. -/
abbrev Time := ℕ

/-- The answer to `recv` on a stream socket. -/
inductive RecvResult where
  | data (first : UInt8) (rest : List UInt8)
  | eof
  | again
  | error (errno : ℕ)
  deriving DecidableEq

namespace RecvResult

/-- The bytes stored by a `recv` of at most `n` bytes. -/
def bytes (first : UInt8) (rest : List UInt8) (n : ℕ) : List UInt8 :=
  (first :: rest).take n

theorem length_bytes_le (first : UInt8) (rest : List UInt8) (n : ℕ) :
    (bytes first rest n).length ≤ n := List.length_take_le _ _

theorem length_bytes_pos (first : UInt8) (rest : List UInt8) {n : ℕ} (h : 0 < n) :
    0 < (bytes first rest n).length := by
  rw [bytes, List.length_take, List.length_cons]
  omega

end RecvResult

/-- The answer to `send`; `sent k` accepts `k + 1` bytes when that many are offered. -/
inductive SendResult where
  | sent (k : ℕ)
  | again
  | error (errno : ℕ)
  deriving DecidableEq

/-- The bytes accepted when `n` are offered. -/
def SendResult.count (k n : ℕ) : ℕ := min (k + 1) n

/-- The bits of an epoll event or of an interest mask. -/
structure EpollEvents where
  epollin : Bool
  epollout : Bool
  epollrdhup : Bool
  epollerr : Bool
  epollhup : Bool
  deriving DecidableEq

def EpollEvents.wakes (mask ready : EpollEvents) : Bool :=
  mask.epollin && ready.epollin || mask.epollout && ready.epollout ||
    mask.epollrdhup && ready.epollrdhup || mask.epollerr && ready.epollerr ||
    mask.epollhup && ready.epollhup

/-- The kernel's side of a connected stream socket: what has arrived and was not read yet,
whether the FIN of the peer has arrived behind it and was read, and the free room of the send
buffer. -/
structure StreamSocket where
  rx : List UInt8
  fin : Bool
  finRead : Bool
  room : ℕ
  deriving DecidableEq

namespace StreamSocket

def connected : StreamSocket := ⟨[], false, false, 0⟩

/-- `recv` of at most `limit` bytes; the kernel gives `k + 1` of them when that many are there. -/
def recv (s : StreamSocket) (limit k : ℕ) : RecvResult × StreamSocket :=
  match s.rx.take (min (k + 1) limit) with
  | b :: bs => (.data b bs, { s with rx := s.rx.drop (min (k + 1) limit) })
  | [] => if s.fin then (.eof, { s with finRead := true }) else (.again, s)

/-- Everything a `recv` of at most `limit` bytes can do. -/
inductive Recvs (s : StreamSocket) (limit : ℕ) : RecvResult × StreamSocket → Prop
  | data (b : UInt8) (bs rest : List UInt8) (hrx : s.rx = b :: bs ++ rest)
      (hle : bs.length + 1 ≤ limit) : Recvs s limit (.data b bs, { s with rx := rest })
  | eof (hrx : s.rx = []) (hfin : s.fin = true) :
      Recvs s limit (.eof, { s with finRead := true })
  | again (hrx : s.rx = []) (hfin : s.fin = false) : Recvs s limit (.again, s)

theorem recv_spec (s : StreamSocket) {limit : ℕ} (hlimit : 0 < limit) (k : ℕ) :
    s.Recvs limit (s.recv limit k) := by
  have hsplit := List.take_append_drop (min (k + 1) limit) s.rx
  have hlen := List.length_take_le (min (k + 1) limit) s.rx
  unfold recv
  split
  · rename_i b bs htake
    rw [htake] at hsplit hlen
    exact .data b bs _ hsplit.symm (Nat.le_trans hlen (Nat.min_le_right _ _))
  · rename_i htake
    have hrx : s.rx = [] := by
      rcases List.take_eq_nil_iff.mp htake with hzero | hrx
      · omega
      · exact hrx
    by_cases hfin : s.fin = true
    · rw [if_pos hfin]
      exact .eof hrx hfin
    · rw [if_neg hfin]
      exact .again hrx (Bool.eq_false_iff.mpr hfin)

/-- `recv` of one byte with `MSG_PEEK`. -/
def peek (s : StreamSocket) : RecvResult :=
  match s.rx with
  | b :: _ => .data b []
  | [] => if s.fin then .eof else .again

theorem peek_eq_eof_iff (s : StreamSocket) : s.peek = .eof ↔ s.rx = [] ∧ s.fin = true := by
  unfold peek
  cases s.rx with
  | nil => cases s.fin <;> simp
  | cons b bs => simp

/-- The conditions that are ready for a level-triggered `epoll_wait`. -/
def ready (s : StreamSocket) : EpollEvents where
  epollin := s.rx ≠ [] ∨ s.fin
  epollout := 0 < s.room
  epollrdhup := s.fin
  epollerr := false
  epollhup := false

/-- Bytes, or the FIN, that `recv` has not returned yet. -/
def Unread (s : StreamSocket) : Prop :=
  s.rx ≠ [] ∨ s.fin = true ∧ s.finRead = false

end StreamSocket

/-- What the network does to a socket on its own. -/
inductive KernelEvent where
  | arrive (bytes : List UInt8)
  | fin
  | room (n : ℕ)
  deriving DecidableEq

def StreamSocket.kernelStep (s : StreamSocket) : KernelEvent → Option StreamSocket
  | .arrive bytes => if s.fin then none else some { s with rx := s.rx ++ bytes }
  | .fin => some { s with fin := true }
  | .room n => some { s with room := n }

end FiveGProxy
