import FiveGProxy.Kernel.Socket

/-!
# Sockets with a pending error

`epoll` reports EPOLLERR and EPOLLHUP whatever the interest mask is. EPOLLERR is ready as long as
the socket holds a pending error, which the next call that reports it takes away.
-/

namespace FiveGProxy

/-- The conditions `epoll_wait` reports for a descriptor. -/
def EpollEvents.reported (mask ready : EpollEvents) : EpollEvents where
  epollin := mask.epollin && ready.epollin
  epollout := mask.epollout && ready.epollout
  epollrdhup := mask.epollrdhup && ready.epollrdhup
  epollerr := ready.epollerr
  epollhup := ready.epollhup

def EpollEvents.any (ev : EpollEvents) : Bool :=
  ev.epollin || ev.epollout || ev.epollrdhup || ev.epollerr || ev.epollhup

/-- What `send` has accepted of `n` bytes. -/
def SendResult.accepted (n : ℕ) : SendResult → ℕ
  | .sent k => SendResult.count k n
  | .again | .error _ => 0

/-- A connected stream socket. -/
structure PolledStream where
  rx : List UInt8
  fin : Bool
  room : ℕ
  err : Option ℕ
  hup : Bool
  deriving DecidableEq

namespace PolledStream

def connected : PolledStream := ⟨[], false, 0, none, false⟩

def ready (s : PolledStream) : EpollEvents where
  epollin := s.rx ≠ [] ∨ s.fin
  epollout := 0 < s.room
  epollrdhup := s.fin
  epollerr := s.err.isSome
  epollhup := s.hup

/-- `recv` of at most `limit` bytes: what has arrived comes before a pending error. -/
def recv (s : PolledStream) (limit k : ℕ) : RecvResult × PolledStream :=
  match s.rx.take (min (k + 1) limit) with
  | b :: bs => (.data b bs, { s with rx := s.rx.drop (min (k + 1) limit) })
  | [] =>
      match s.err with
      | some e => (.error e, { s with err := none })
      | none => if s.fin then (.eof, s) else (.again, s)

/-- `send` of `n` bytes, of which the kernel takes `k + 1` when it has the room. -/
def send (s : PolledStream) (n k : ℕ) : SendResult × PolledStream :=
  match s.err with
  | some e => (.error e, { s with err := none })
  | none =>
      if s.room = 0 then (.again, s)
      else
        (.sent (min k (s.room - 1)),
          { s with room := s.room - SendResult.count (min k (s.room - 1)) n })

/-- Nothing that `recv` would return is there. -/
def Drained (s : PolledStream) : Prop := s.rx = [] ∧ s.fin = false

theorem epollin_ready_iff (s : PolledStream) : s.ready.epollin = true ↔ ¬ s.Drained := by
  simp only [ready, Drained, decide_eq_true_eq]
  cases s.fin <;> simp

theorem Drained.reported {s : PolledStream} (h : s.Drained) (mask : EpollEvents) :
    (mask.reported s.ready).any = false ↔
      s.err = none ∧ s.hup = false ∧ ¬ (mask.epollout = true ∧ 0 < s.room) := by
  obtain ⟨hrx, hfin⟩ := h
  simp only [EpollEvents.reported, EpollEvents.any, ready, hrx, hfin]
  cases mask.epollout <;> cases s.err <;> cases s.hup <;> simp

theorem recv_eq_again {s : PolledStream} {limit k : ℕ} {sock : PolledStream} (hlimit : 0 < limit)
    (h : s.recv limit k = (.again, sock)) : s.Drained := by
  unfold recv at h
  split at h
  · cases h
  · rename_i htake
    split at h
    · cases h
    · split_ifs at h with hfin
      · cases h
      · refine ⟨?_, Bool.eq_false_iff.mpr hfin⟩
        rcases List.take_eq_nil_iff.mp htake with hzero | hrx
        · omega
        · exact hrx

/-- What `send` does to the socket. -/
theorem send_spec (s : PolledStream) (n k : ℕ) :
    (∃ e, s.err = some e ∧ s.send n k = (.error e, { s with err := none })) ∨
      (s.err = none ∧ s.room = 0 ∧ s.send n k = (.again, s)) ∨
      (s.err = none ∧ 0 < s.room ∧ ∃ j sock, s.send n k = (.sent j, sock)) := by
  unfold send
  cases herr : s.err with
  | some e => exact Or.inl ⟨e, rfl, rfl⟩
  | none =>
      by_cases hroom : s.room = 0
      · exact Or.inr (Or.inl ⟨rfl, hroom, by simp only [if_pos hroom]⟩)
      · simp only [if_neg hroom]
        exact Or.inr (Or.inr ⟨trivial, Nat.pos_of_ne_zero hroom, _, _, rfl⟩)

end PolledStream

/-- A datagram socket. -/
structure PolledDatagrams (α : Type) where
  queue : List α
  err : Option ℕ
  hup : Bool
  deriving DecidableEq

namespace PolledDatagrams

variable {α : Type}

def bound : PolledDatagrams α := ⟨[], none, false⟩

def ready (s : PolledDatagrams α) : EpollEvents where
  epollin := !s.queue.isEmpty
  epollout := true
  epollrdhup := false
  epollerr := s.err.isSome
  epollhup := s.hup

/-- `sendto`, to which the kernel answers `r` when it has no error to report first. -/
def sendto (s : PolledDatagrams α) (r : SendResult) : SendResult × PolledDatagrams α :=
  match s.err with
  | some e => (.error e, { s with err := none })
  | none => (r, s)

/-- Nothing that `recvfrom` would return is there. -/
def Drained (s : PolledDatagrams α) : Prop := s.err = none ∧ s.queue = []

theorem reported_any (s : PolledDatagrams α) (b : Bool) :
    (EpollEvents.reported ⟨b, false, false, false, false⟩ s.ready).any = false ↔
      s.err = none ∧ s.hup = false ∧ (b = true → s.queue = []) := by
  obtain ⟨queue, err, hup⟩ := s
  cases b <;> cases queue <;> cases err <;> cases hup <;>
    simp [EpollEvents.reported, EpollEvents.any, ready]

end PolledDatagrams

end FiveGProxy
