import FiveGProxy.UdpSession.Parts

/-!
# Events that change nothing

A level-triggered event that is handled without moving anything is reported again as long as one of
its conditions is ready. In such an event every part of the handler leaves the session and the
sockets as they are, so what the parts have found out is still so at the end (`UdpConn.Found`).
EPOLLERR and EPOLLHUP cannot be masked, and a session with command 0x04 does not look at its 5G
socket while a frame is pending, so there a pending error is reported for ever.
-/

namespace FiveGProxy

open Memory Steps

/-! ### One call -/

theorem clientDataTurn_data {now : Time} {s : Session} {b : UInt8} {bs : List UInt8}
    {p : Session × Option Ret} (hs : s.Reading) (h : clientDataTurn now s (.data b bs) = some p) :
    s.received.length < p.1.received.length := by
  have hgrows : ∀ n, 0 < n → s.received.length <
      (s.received ++ RecvResult.bytes b bs n).length := by
    intro n hn
    have hpos := RecvResult.length_bytes_pos b bs hn
    rw [List.length_append]
    omega
  unfold clientDataTurn at h
  by_cases hlt : s.lenGot < 2
  · rw [if_pos hlt] at h
    cases h
    have hreceived : (recvLenField s (.data b bs)).1.received =
        s.received ++ RecvResult.bytes b bs (2 - s.lenGot) := by
      unfold recvLenField checkLenField
      simp only
      split
      · rfl
      · split <;> rfl
    rw [hreceived]
    exact hgrows _ (Nat.sub_pos_of_lt hlt)
  · rw [if_neg hlt] at h
    obtain ⟨q, hq, rfl⟩ := Option.map_eq_some_iff.mp h
    unfold recvFrameBody at hq
    split_ifs at hq
    cases hq
    have hreceived : ∀ t : Session, (finishFrame now t).received = t.received := by
      intro t
      unfold finishFrame
      split <;> rfl
    rw [hreceived]
    exact hgrows _ (Nat.sub_pos_of_lt (hs.resolve_left hlt))

theorem clientDataTurn_end {now : Time} {s : Session} {r : RecvResult} {p : Session × Option Ret}
    (hr : r = .eof ∨ ∃ e, r = .error e) (h : clientDataTurn now s r = some p) :
    p.2 = some .close := by
  unfold clientDataTurn at h
  split_ifs at h
  · cases h
    rcases hr with rfl | ⟨e, rfl⟩ <;> rfl
  · obtain ⟨q, hq, rfl⟩ := Option.map_eq_some_iff.mp h
    unfold recvFrameBody at hq
    split_ifs at hq
    rcases hr with rfl | ⟨e, rfl⟩ <;> cases hq <;> rfl

namespace UdpConn

/-! ### What the handler of an idle event has found out -/

def Barren (s : UdpConn) : UdpRole → Prop
  | .client => s.session.localUdpFd < 0 ∧ s.client.Drained ∧
      (0 < s.session.outLen → s.client.err = none ∧ s.client.room = 0)
  | .localUdp => s.localUdp.Drained
  | .remote => s.session.localUdpFd < 0 ∧ 0 < s.session.outLen ∨ s.remote.Drained

def Found (s : UdpConn) : Prop :=
  match s.pc with
  | .flush => s.role = .client ∧ s.session.localUdpFd < 0 ∧ 0 < s.session.outLen ∧
      (s.ev.epollin = true ↔ ¬ s.client.Drained)
  | .readClient => s.role = .client ∧ ¬ s.client.Drained
  | .recvLocal => s.role = .localUdp
  | .recvRemote => s.role = .remote
  | .updateClient => s.Barren s.role
  | .updateRemote => s.Barren s.role
  | .wait => s.Barren s.role
  | .ctrl | .route _ | .close | .closed => False

/-- Nothing but `last_active` and the masks has changed. -/
structure Same (s t : UdpConn) : Prop where
  session : t.session = { s.session with lastActive := t.session.lastActive }
  client : t.client = s.client
  localUdp : t.localUdp = s.localUdp
  remote : t.remote = s.remote
  moved : t.moved = s.moved

theorem Same.refl (s : UdpConn) : Same s s := ⟨rfl, rfl, rfl, rfl, rfl⟩

theorem Same.trans {s t u : UdpConn} (h₁ : Same s t) (h₂ : Same t u) : Same s u where
  session := by
    have h := h₂.session
    rw [h₁.session] at h
    exact h
  client := h₂.client.trans h₁.client
  localUdp := h₂.localUdp.trans h₁.localUdp
  remote := h₂.remote.trans h₁.remote
  moved := h₂.moved.trans h₁.moved

theorem Same.barren_iff {s t : UdpConn} (h : Same s t) (role : UdpRole) :
    t.Barren role ↔ s.Barren role := by
  have hfd : t.session.localUdpFd = s.session.localUdpFd := by rw [h.session]
  have hlen : t.session.outLen = s.session.outLen := by rw [h.session]
  cases role with
  | client => rw [Barren, Barren, hfd, hlen, h.client]
  | localUdp => rw [Barren, Barren, h.localUdp]
  | remote => rw [Barren, Barren, hfd, hlen, h.remote]

def Acts (s t : UdpConn) : Prop :=
  s.moved < t.moved ∨ t.pc = .close ∨ t.session.closed = true

/-- A part of the handler that finds nothing to do and leaves the masks to the end. -/
structure Idles (s t : UdpConn) : Prop where
  same : Same s t
  found : t.Found
  role : t.role = s.role
  early : t.pc ≠ .updateRemote ∧ t.pc ≠ .wait

/-- A part of the handler at a place where nothing has moved so far: it finds nothing to do either,
or there is something and it does it. -/
def Goes (s t : UdpConn) : Prop := Idles s t ∨ ¬ s.Barren s.role ∧ Acts s t

/-- Behind the flush the handler reads when EPOLLIN was reported, and there is something to read. -/
theorem enterRead_goes {s : UdpConn} (hrole : s.role = .client) (hneg : s.session.localUdpFd < 0)
    (hev : s.ev.epollin = true ↔ ¬ s.client.Drained)
    (hfull : 0 < s.session.outLen → s.client.err = none ∧ s.client.room = 0) :
    Idles s s.enterRead := by
  unfold enterRead
  by_cases hin : s.ev.epollin = true
  · rw [if_pos hin]
    exact ⟨⟨rfl, rfl, rfl, rfl, rfl⟩, ⟨hrole, hev.mp hin⟩, rfl, nofun, nofun⟩
  · rw [if_neg hin]
    refine ⟨⟨rfl, rfl, rfl, rfl, rfl⟩, ?_, rfl, nofun, nofun⟩
    show s.Barren s.role
    rw [hrole]
    exact ⟨hneg, not_not.mp fun h => hin (hev.mpr h), hfull⟩

theorem flush_goes {s t : UdpConn} {e : UdpConnEvent} (hinv : ConnInv s) (hpc : s.pc = .flush)
    (hf : s.Found) (h : s.flush e = some t) : Goes s t := by
  simp only [Found, hpc] at hf
  obtain ⟨hrole, hneg, hout, hev⟩ := hf
  have hlt := hinv.unsent hneg hout
  unfold flush at h
  split at h
  · rename_i k
    rw [if_pos hlt] at h
    obtain ⟨⟨u, ret, rest⟩, hflush, rfl⟩ := Option.map_eq_some_iff.mp h
    rcases s.client.send_spec (s.session.outLen - s.session.outOff) k with
      ⟨errno, herr, hsend⟩ | ⟨herr, hroom, hsend⟩ | ⟨herr, hroom, j, sock, hsend⟩ <;>
      rw [hsend] at hflush ⊢
    · right
      unfold udpFlushOut at hflush
      rw [if_pos hlt] at hflush
      split_ifs at hflush
      cases hflush
      refine ⟨fun hb => ?_, Or.inr (Or.inl rfl)⟩
      rw [hrole] at hb
      rw [(hb.2.2 hout).1] at herr
      cases herr
    · left
      unfold udpFlushOut at hflush
      rw [if_pos hlt] at hflush
      split_ifs at hflush
      cases hflush
      have hafter : s.afterFlush = s.enterRead := by rw [afterFlush, hrole]
      have hgoes := enterRead_goes hrole hneg hev fun _ => ⟨herr, hroom⟩
      simp only [SendResult.isSent, Bool.false_and, Nat.sub_self, Nat.add_zero]
      rw [← hafter] at hgoes
      exact hgoes
    · right
      refine ⟨fun hb => ?_, ?_⟩
      · rw [hrole] at hb
        exact absurd (hb.2.2 hout).2 hroom.ne'
      · have hsent := udpFlushOut_sent_lt hlt hflush
        have hmoved : s.moved < s.moved + (u.sent.length - s.session.sent.length) := by omega
        cases ret with
        | close => exact Or.inl hmoved
        | ok =>
            simp only
            split
            · exact Or.inl hmoved
            · have hle := (afterFlush_part { s with
                session := u
                client := sock
                moved := s.moved + (u.sent.length - s.session.sent.length) }).counts.moved_le
              exact Or.inl (hmoved.trans_le hle)
  · rw [if_pos hlt] at h
    cases h
  · cases h

theorem readClient_goes {s t : UdpConn} {e : UdpConnEvent} (hinv : ConnInv s)
    (hpc : s.pc = .readClient) (hf : s.Found) (h : s.readClient e = some t) : Goes s t := by
  simp only [Found, hpc] at hf
  obtain ⟨hrole, hready⟩ := hf
  have hreading : s.session.lenGot < 2 ∨ s.session.frameGot < s.session.frameExpect := by
    rcases hinv.reading with hpc' | hpc' | hreading
    · rw [hpc] at hpc'
      cases hpc'
    · rw [hpc] at hpc'
      cases hpc'
    · exact hreading
  have hlimit : 0 < s.recvLimit := by
    unfold recvLimit
    split_ifs with hlt
    · exact Nat.sub_pos_of_lt hlt
    · exact Nat.sub_pos_of_lt (hreading.resolve_left hlt)
  refine Or.inr ⟨fun hb => ?_, ?_⟩
  · rw [hrole] at hb
    exact hready hb.2.1
  · unfold readClient at h
    rw [if_pos hreading] at h
    split at h
    · rename_i k
      obtain ⟨⟨u, ret⟩, hturn, rfl⟩ := Option.map_eq_some_iff.mp h
      cases hanswer : s.client.recv s.recvLimit k with
      | mk r sock =>
          rw [hanswer] at hturn
          cases r with
          | data b bs =>
              have hgrows := clientDataTurn_data hreading hturn
              have hmoved : s.moved <
                  s.moved + (u.received.length - s.session.received.length) := by
                have hlt : s.session.received.length < u.received.length := hgrows
                omega
              cases ret with
              | none => exact Or.inl hmoved
              | some ret => cases ret <;> exact Or.inl hmoved
          | again => exact absurd (PolledStream.recv_eq_again hlimit hanswer) hready
          | eof =>
              obtain rfl : ret = some .close := clientDataTurn_end (Or.inl rfl) hturn
              exact Or.inr (Or.inl rfl)
          | error errno =>
              obtain rfl : ret = some .close := clientDataTurn_end (Or.inr ⟨errno, rfl⟩) hturn
              exact Or.inr (Or.inl rfl)
    · cases h

theorem recvLocal_goes {s t : UdpConn} {e : UdpConnEvent} (hpc : s.pc = .recvLocal) (hf : s.Found)
    (h : s.recvLocal e = some t) : Goes s t := by
  have hrole : s.role = .localUdp := by
    simp only [Found, hpc] at hf
    exact hf
  have hbarren : s.Barren s.role ↔ s.localUdp.Drained := by
    rw [hrole]
    exact Iff.rfl
  unfold recvLocal at h
  split at h
  · rcases s.localUdp.recvfrom_spec with
      ⟨hdrained, hanswer⟩ | ⟨hfull, errno, sock, hanswer, -⟩ | ⟨hfull, d, sock, hanswer, -⟩ <;>
      rw [hanswer] at h <;> cases h
    · exact Or.inl ⟨⟨rfl, rfl, rfl, rfl, rfl⟩, hbarren.mpr hdrained, rfl, nofun, nofun⟩
    · exact Or.inr ⟨fun hb => hfull (hbarren.mp hb), Or.inr (Or.inl rfl)⟩
    · exact Or.inr ⟨fun hb => hfull (hbarren.mp hb), Or.inl (Nat.lt_succ_self _)⟩
  · cases h

theorem recvRemote_goes {s t : UdpConn} {e : UdpConnEvent} (hpc : s.pc = .recvRemote)
    (hf : s.Found) (h : s.recvRemote e = some t) : Goes s t := by
  have hrole : s.role = .remote := by
    simp only [Found, hpc] at hf
    exact hf
  have hbarren : s.Barren s.role ↔
      (s.session.localUdpFd < 0 ∧ 0 < s.session.outLen ∨ s.remote.Drained) := by
    rw [hrole]
    exact Iff.rfl
  unfold recvRemote at h
  split_ifs at h with hgo
  · split at h
    · cases h
      exact Or.inl ⟨⟨rfl, rfl, rfl, rfl, rfl⟩, hbarren.mpr (Or.inl hgo), rfl, (by rintro ⟨⟩),
        (by rintro ⟨⟩)⟩
    · cases h
  · split at h
    · obtain ⟨p, hp, rfl⟩ := Option.map_eq_some_iff.mp h
      have hturn := udpRemoteEvent_turn hgo hp
      rcases s.remote.recvfrom_spec with
        ⟨hdrained, hanswer⟩ | ⟨hfull, errno, sock, hanswer, -⟩ | ⟨hfull, d, sock, hanswer, -⟩ <;>
        rw [hanswer] at hturn ⊢
      · obtain rfl := hturn.again rfl
        simp only [RecvfromResult.isData, if_true]
        exact Or.inl
          ⟨⟨rfl, rfl, rfl, rfl, rfl⟩, hbarren.mpr (Or.inr hdrained), rfl, (by rintro ⟨⟩),
            (by rintro ⟨⟩)⟩
      · obtain ⟨u, ret⟩ := p
        obtain rfl : ret = .close := hturn.error errno rfl
        exact Or.inr ⟨fun hb => (hbarren.mp hb).elim hgo hfull, Or.inr (Or.inl rfl)⟩
      · refine Or.inr ⟨fun hb => (hbarren.mp hb).elim hgo hfull, Or.inl ?_⟩
        simp only [RecvfromResult.isData, if_true]
        split <;> exact Nat.lt_succ_self _
    · cases h

theorem startHandler_goes {s : UdpConn} (hinv : ConnInv s) {role : UdpRole} (now : Time)
    (hev : (s.reported role).any = true) :
    Idles { s with role := role } (s.startHandler now role) ∨
      ¬ s.Barren role ∧ Acts s (s.startHandler now role) := by
  cases role with
  | localUdp => exact Or.inl ⟨⟨rfl, rfl, rfl, rfl, rfl⟩, rfl, rfl, by rintro ⟨⟩, by rintro ⟨⟩⟩
  | remote => exact Or.inl ⟨⟨rfl, rfl, rfl, rfl, rfl⟩, rfl, rfl, by rintro ⟨⟩, by rintro ⟨⟩⟩
  | client =>
      by_cases hfd : 0 ≤ s.session.localUdpFd
      · refine Or.inr ⟨fun hb => absurd hb.1 (Int.not_lt.mpr hfd), Or.inr (Or.inl ?_)⟩
        have hmask := (hinv.watches.associate hfd).1
        have hend : ((s.reported .client).epollerr || (s.reported .client).epollhup ||
            (s.reported .client).epollrdhup) = true := by
          simp only [reported, EpollEvents.reported, hmask, EpollEvents.any, Bool.false_and,
            Bool.true_and, Bool.false_or, Bool.or_eq_true] at hev ⊢
          rcases hev with (hrdhup | herr) | hhup
          · exact Or.inr hrdhup
          · exact Or.inl (Or.inl herr)
          · exact Or.inl (Or.inr hhup)
        simp only [startHandler, enter, hfd, if_true, enterCtrl, hend]
        rfl
      · have hneg : s.session.localUdpFd < 0 := Int.not_le.mp hfd
        have hin : (s.reported .client).epollin = true ↔ ¬ s.client.Drained := by
          rw [reported, EpollEvents.reported, hinv.watches.client_epollin hneg, Bool.true_and]
          exact s.client.epollin_ready_iff
        left
        by_cases hout : 0 < s.session.outLen
        · simp only [startHandler, enter, hfd, hout, if_true, if_false]
          exact ⟨⟨rfl, rfl, rfl, rfl, rfl⟩, ⟨rfl, hneg, hout, hin⟩, rfl, by rintro ⟨⟩, by rintro ⟨⟩⟩
        · simp only [startHandler, enter, hfd, hout, if_false]
          have hidles := enterRead_goes (s := { s with
            session := { s.session with lastActive := now }
            role := .client
            now := now
            ev := s.reported .client
            clientCtlOk := true
            remoteCtlOk := true }) rfl hneg hin fun hpos => absurd hpos hout
          exact ⟨⟨hidles.same.session, hidles.same.client, hidles.same.localUdp, hidles.same.remote,
            hidles.same.moved⟩, hidles.found, hidles.role, hidles.early⟩

/-! ### A whole event -/

def ClientMask (s t : UdpConn) : Prop :=
  t.clientEvents = if t.clientCtlOk then t.session.clientInterest else s.clientEvents

/-- The mask of the 5G socket after its update. That of a session with command 0x03 is never
changed. -/
def RemoteMask (s t : UdpConn) : Prop :=
  t.remoteEvents =
    if t.session.localUdpFd < 0 ∧ t.remoteCtlOk = true then t.session.remoteInterest
    else s.remoteEvents

def Masks (s t : UdpConn) : Prop :=
  match t.pc with
  | .updateRemote => ClientMask s t ∧ t.remoteEvents = s.remoteEvents
  | .wait => ClientMask s t ∧ RemoteMask s t
  | _ => t.clientEvents = s.clientEvents ∧ t.remoteEvents = s.remoteEvents

theorem Masks.of_early {s t : UdpConn} (hpc : t.pc ≠ .updateRemote ∧ t.pc ≠ .wait)
    (hclient : t.clientEvents = s.clientEvents) (hremote : t.remoteEvents = s.remoteEvents) :
    Masks s t := by
  unfold Masks
  split
  · exact absurd ‹_› hpc.1
  · exact absurd ‹_› hpc.2
  · exact ⟨hclient, hremote⟩

theorem Masks.early {s t : UdpConn} (h : Masks s t) (hpc : t.pc ≠ .updateRemote)
    (hpc' : t.pc ≠ .wait) :
    t.clientEvents = s.clientEvents ∧ t.remoteEvents = s.remoteEvents := by
  unfold Masks at h
  split at h
  · exact absurd ‹_› hpc
  · exact absurd ‹_› hpc'
  · exact h

/-- What holds inside the handling of one event that began in `s`: either nothing has changed and
what was found out is true, or there was something to do and it has been done. -/
def PassInv (s : UdpConn) (role : UdpRole) (t : UdpConn) : Prop :=
  ConnInv t ∧
    (Same s t ∧ t.Found ∧ t.role = role ∧ Masks s t ∨ ¬ s.Barren role ∧ Acts s t)

theorem startHandler_pass {s : UdpConn} (hinv : ConnInv s) (hpc : s.pc = .wait) {role : UdpRole}
    (now : Time) (hev : (s.reported role).any = true) :
    PassInv s role (s.startHandler now role) := by
  have hpart := s.startHandler_part now role
  refine ⟨hpart.inv hinv (by rw [hpc]; exact nofun) (by rw [hpc]; exact nofun), ?_⟩
  rcases startHandler_goes hinv now hev with hidles | hacts
  · obtain ⟨hsession, hclient, hlocal, hremote, hmoved⟩ := hidles.same
    exact Or.inl ⟨⟨hsession, hclient, hlocal, hremote, hmoved⟩, hidles.found, hidles.role,
      .of_early hidles.early hpart.clientEvents hpart.remoteEvents⟩
  · exact Or.inr hacts

/-- Once something has been done the end of the handler does not undo it. -/
theorem Acts.step {s t u : UdpConn} {e : UdpConnEvent} (hinv : ConnInv t) (h : Acts s t)
    (hu : t.handle e = some u) : Acts s u := by
  obtain ⟨hclosed, ⟨hclose, hp⟩ | ⟨hpc, rfl⟩⟩ := handle_spec hu
  · rcases h with hmoved | hpc | hclosed'
    · refine Or.inl (hmoved.trans_le ?_)
      rcases hp with hp | hp
      · exact hp.counts.moved_le
      · cases hp <;> exact le_rfl
    · exact absurd hpc hclose
    · rw [hinv.opened hclosed] at hclosed'
      cases hclosed'
  · exact Or.inr (Or.inr rfl)

theorem Found.barren {s : UdpConn} (h : s.Found)
    (hpc : s.pc = .updateClient ∨ s.pc = .updateRemote ∨ s.pc = .wait) : s.Barren s.role := by
  unfold Found at h
  rcases hpc with hpc | hpc | hpc <;> rw [hpc] at h <;> exact h

theorem armClient_same (s : UdpConn) (ok : Bool) :
    Same s { s with toMasked := s.toMasked.armClient ok, clientCtlOk := ok, pc := .updateRemote } :=
  ⟨by rw [s.toMasked.armClient_session ok], rfl, rfl, rfl, rfl⟩

theorem armRemote_same (s : UdpConn) (ok : Bool) :
    Same s { s with toMasked := s.toMasked.armRemote ok, remoteCtlOk := ok, pc := .wait } :=
  ⟨by rw [s.toMasked.armRemote_session ok], rfl, rfl, rfl, rfl⟩

theorem Updates.pass {s t u : UdpConn} (hinv : ConnInv t) (hu : Updates t u) (hf : t.Found)
    (hm : Masks s t) : Same t u ∧ u.Found ∧ u.role = t.role ∧ Masks s u := by
  cases hu with
  | clientSame hpc hsame =>
      have hb := hf.barren (Or.inl hpc)
      simp only [Masks, hpc] at hm
      refine ⟨⟨rfl, rfl, rfl, rfl, rfl⟩, hb, rfl, ?_, hm.2⟩
      show t.clientEvents = if t.clientCtlOk then t.session.clientInterest else s.clientEvents
      split
      · exact hsame
      · exact hm.1
  | client hpc hne ok =>
      have hb := ((t.armClient_same ok).barren_iff t.role).mpr (hf.barren (Or.inl hpc))
      simp only [Masks, hpc] at hm
      refine ⟨t.armClient_same ok, hb, rfl, ?_, (t.toMasked.armClient_remoteEvents ok).trans hm.2⟩
      show (t.toMasked.armClient ok).clientEvents =
        if ok then (t.toMasked.armClient ok).session.clientInterest else s.clientEvents
      cases ok with
      | true => rw [if_pos rfl, Masked.armClient_true, Masked.armClient_session]
      | false =>
          rw [if_neg nofun, Masked.armClient_false]
          exact hm.1
  | remoteSame hpc hsame =>
      have hb := hf.barren (Or.inr (Or.inl hpc))
      simp only [Masks, hpc] at hm
      refine ⟨⟨rfl, rfl, rfl, rfl, rfl⟩, hb, rfl, hm.1, ?_⟩
      show t.remoteEvents = if t.session.localUdpFd < 0 ∧ t.remoteCtlOk = true then
        t.session.remoteInterest else s.remoteEvents
      split_ifs with hneg
      · exact not_not.mp fun hne => hsame ⟨hneg.1, hinv.remoteUdpFd_nonneg, hne⟩
      · exact hm.2
  | remote hpc hneg hne ok =>
      have hb := ((t.armRemote_same ok).barren_iff t.role).mpr (hf.barren (Or.inr (Or.inl hpc)))
      simp only [Masks, hpc] at hm
      refine ⟨t.armRemote_same ok, hb, rfl, ?_, ?_⟩
      · show (t.toMasked.armRemote ok).clientEvents =
          if t.clientCtlOk then (t.toMasked.armRemote ok).session.clientInterest else s.clientEvents
        rw [Masked.armRemote_clientEvents, Masked.armRemote_session]
        exact hm.1
      · show (t.toMasked.armRemote ok).remoteEvents =
          if (t.toMasked.armRemote ok).session.localUdpFd < 0 ∧ ok = true then
            (t.toMasked.armRemote ok).session.remoteInterest
          else s.remoteEvents
        rw [Masked.armRemote_session]
        cases ok with
        | true => rw [if_pos ⟨hneg, rfl⟩, Masked.armRemote_true]
        | false =>
            rw [if_neg fun h => Bool.false_ne_true h.2, Masked.armRemote_false]
            exact hm.2

theorem handle_goes {s t : UdpConn} {e : UdpConnEvent} (hinv : ConnInv s) (hf : s.Found)
    (ht : s.handle e = some t) :
    (Goes s t ∧ Part s t ∧ s.pc ≠ .updateRemote ∧ s.pc ≠ .wait) ∨ Updates s t := by
  unfold handle at ht
  split at ht
  · cases ht
  · simp only [Found, ‹s.pc = _›] at hf
  · rename_i hpc
    exact Or.inl ⟨flush_goes hinv hpc hf ht, flush_part hpc ht, by rw [hpc]; exact ⟨nofun, nofun⟩⟩
  · rename_i hpc
    exact Or.inl ⟨readClient_goes hinv hpc hf ht, readClient_part ht,
      by rw [hpc]; exact ⟨nofun, nofun⟩⟩
  · simp only [Found, ‹s.pc = _›] at hf
  · rename_i hpc
    exact Or.inl ⟨recvLocal_goes hpc hf ht, recvLocal_part ht, by rw [hpc]; exact ⟨nofun, nofun⟩⟩
  · rename_i hpc
    exact Or.inl ⟨recvRemote_goes hpc hf ht, recvRemote_part ht, by rw [hpc]; exact ⟨nofun, nofun⟩⟩
  · exact Or.inr (updateClient_updates ‹_› ht)
  · exact Or.inr (updateRemote_updates ‹_› ht)
  · simp only [Found, ‹s.pc = _›] at hf
  · cases ht

theorem PassInv.step {s t u : UdpConn} {role : UdpRole} {e : UdpConnEvent} (h : PassInv s role t)
    (hu : t.handle e = some u) : PassInv s role u := by
  obtain ⟨hinv, hcase⟩ := h
  refine ⟨handle_inv hinv hu, ?_⟩
  rcases hcase with ⟨hsame, hf, hrole, hm⟩ | ⟨hb, hacts⟩
  · rcases handle_goes hinv hf hu with ⟨hidles | ⟨hb, hacts⟩, hpart, hpc, hpc'⟩ | hup
    · left
      obtain ⟨hclient, hremote⟩ := hm.early hpc hpc'
      exact ⟨hsame.trans hidles.same, hidles.found, hidles.role.trans hrole,
        .of_early hidles.early (hpart.clientEvents.trans hclient)
          (hpart.remoteEvents.trans hremote)⟩
    · right
      rw [hrole, hsame.barren_iff] at hb
      refine ⟨hb, ?_⟩
      rw [Acts, ← hsame.moved]
      exact hacts
    · obtain ⟨hsame', hf', hrole', hm'⟩ := hup.pass hinv hf hm
      exact Or.inl ⟨hsame.trans hsame', hf', hrole'.trans hrole, hm'⟩
  · exact Or.inr ⟨hb, hacts.step hinv hu⟩

def Quiet (s : UdpConn) (role : UdpRole) : Prop := (s.reported role).any = false

/-- The state and the answers of `epoll_ctl` with which an event of the descriptor is not handled in
vain. -/
def Responds (s : UdpConn) (clientOk remoteOk : Bool) : UdpRole → Prop
  | .client =>
      0 ≤ s.session.localUdpFd ∨ ¬ s.client.Drained ∨
        (0 < s.session.outLen ∧ (s.client.err ≠ none ∨ 0 < s.client.room)) ∨
        (s.client.err = none ∧ s.client.hup = false ∧ clientOk = true)
  | .localUdp => ¬ s.localUdp.Drained
  | .remote =>
      if s.session.localUdpFd < 0 ∧ 0 < s.session.outLen then
        s.remote.err = none ∧ s.remote.hup = false ∧ remoteOk = true
      else ¬ s.remote.Drained

theorem responds_of_not_barren {s : UdpConn} {role : UdpRole} (h : ¬ s.Barren role)
    (clientOk remoteOk : Bool) : s.Responds clientOk remoteOk role := by
  cases role with
  | client =>
      by_cases hfd : 0 ≤ s.session.localUdpFd
      · exact Or.inl hfd
      by_cases hdrained : s.client.Drained
      · refine Or.inr (Or.inr (Or.inl ?_))
        by_contra hnone
        refine h ⟨Int.not_le.mp hfd, hdrained, fun hout => ⟨?_, ?_⟩⟩
        · by_contra herr
          exact hnone ⟨hout, Or.inl herr⟩
        · by_contra hroom
          exact hnone ⟨hout, Or.inr (Nat.pos_of_ne_zero hroom)⟩
      · exact Or.inr (Or.inl hdrained)
  | localUdp => exact h
  | remote =>
      unfold Responds
      rw [if_neg fun hgo => h (Or.inl hgo)]
      exact fun hdrained => h (Or.inr hdrained)

theorem client_quiet_iff {s t : UdpConn} (h : Same s t) (hb : s.Barren .client)
    (hev : (s.reported .client).any = true) (hmask : ClientMask s t) (remoteOk : Bool) :
    t.Quiet .client ↔ s.Responds t.clientCtlOk remoteOk .client := by
  obtain ⟨hneg, hdrained, hfull⟩ := hb
  have hold := hdrained.reported s.clientEvents
  have hnew := hdrained.reported t.clientEvents
  unfold Quiet
  rw [reported, h.client, hnew]
  constructor
  · rintro ⟨herr, hhup, hout⟩
    refine Or.inr (Or.inr (Or.inr ⟨herr, hhup, ?_⟩))
    by_contra hok
    rw [ClientMask, if_neg hok] at hmask
    rw [hmask] at hout
    have hnone := hold.mpr ⟨herr, hhup, hout⟩
    rw [reported, hnone] at hev
    cases hev
  · rintro (hfd | hready | ⟨hout, hfree⟩ | ⟨herr, hhup, hok⟩)
    · exact absurd hneg (Int.not_lt.mpr hfd)
    · exact absurd hdrained hready
    · obtain ⟨herr, hroom⟩ := hfull hout
      rcases hfree with herr' | hroom'
      · exact absurd herr herr'
      · exact absurd hroom hroom'.ne'
    · refine ⟨herr, hhup, fun hout => ?_⟩
      have hlen : t.session.outLen = s.session.outLen := by rw [h.session]
      rw [ClientMask, if_pos hok] at hmask
      rw [hmask, Session.clientInterest_epollout, hlen] at hout
      exact absurd (hfull hout.1.2).2 hout.2.ne'

theorem localUdp_quiet_iff {s t : UdpConn} (h : Same s t) (hb : s.Barren .localUdp)
    (hev : (s.reported .localUdp).any = true) (clientOk remoteOk : Bool) :
    t.Quiet .localUdp ↔ s.Responds clientOk remoteOk .localUdp := by
  refine iff_of_false (fun hquiet => ?_) fun hready => hready hb
  rw [Quiet, reported, h.localUdp] at hquiet
  rw [reported, hquiet] at hev
  cases hev

theorem remote_quiet_iff {s t : UdpConn} (hinv : ConnInv s) (h : Same s t) (hb : s.Barren .remote)
    (hev : (s.reported .remote).any = true) (hmask : RemoteMask s t) (clientOk : Bool) :
    t.Quiet .remote ↔ s.Responds clientOk t.remoteCtlOk .remote := by
  have hfd : t.session.localUdpFd = s.session.localUdpFd := by rw [h.session]
  have hlen : t.session.outLen = s.session.outLen := by rw [h.session]
  obtain ⟨b, hb'⟩ := hinv.watches.remote
  rw [reported, hb'] at hev
  have hold := s.remote.reported_any b
  -- the mask has been changed to nothing, or it is still the one that has reported the event
  rw [RemoteMask, hfd, Session.remoteInterest, hlen, hb'] at hmask
  unfold Quiet Responds
  rw [reported, h.remote, hmask]
  by_cases hgo : s.session.localUdpFd < 0 ∧ 0 < s.session.outLen
  · rw [if_pos hgo, if_pos hgo.2]
    by_cases hok : t.remoteCtlOk = true
    · rw [if_pos ⟨hgo.1, hok⟩, s.remote.reported_any]
      exact and_congr Iff.rfl (and_congr Iff.rfl (iff_of_true (by rintro ⟨⟩) hok))
    · rw [if_neg fun h => hok h.2, hev]
      exact iff_of_false (by rintro ⟨⟩) fun h => hok h.2.2
  · have hdrained : s.remote.Drained := hb.resolve_left hgo
    rw [if_neg hgo]
    refine iff_of_false (fun hquiet => ?_) fun hready => hready hdrained
    have hhup : s.remote.hup = false := by
      split at hquiet
      · exact ((s.remote.reported_any _).mp hquiet).2.1
      · exact ((s.remote.reported_any _).mp hquiet).2.1
    rw [hold.mpr ⟨hdrained.1, hhup, fun _ => hdrained.2⟩] at hev
    cases hev

/-- After an event for which there was nothing to do, the descriptor is quiet exactly when only a
stale mask had reported it and the mask has been corrected. -/
theorem Same.quiet_iff {s t : UdpConn} (hinv : ConnInv s) (h : Same s t) {role : UdpRole}
    (hb : s.Barren role) (hev : (s.reported role).any = true) (hclient : ClientMask s t)
    (hremote : RemoteMask s t) :
    t.Quiet role ↔ s.Responds t.clientCtlOk t.remoteCtlOk role := by
  cases role with
  | client => exact client_quiet_iff h hb hev hclient _
  | localUdp => exact localUdp_quiet_iff h hb hev _ _
  | remote => exact remote_quiet_iff hinv h hb hev hremote _

end UdpConn

/-- The session has moved something, changed more than `last_active` or the masks, or been closed,
or the descriptor is quiet. -/
def UdpConn.Handled (s t : UdpConn) (role : UdpRole) : Prop :=
  s.moved < t.moved ∨ t.session ≠ { s.session with lastActive := t.session.lastActive } ∨
    t.session.closed = true ∨ t.Quiet role

/-- In every reachable state, whatever is reported for a descriptor of the session is handled, and
not left to be reported again for nothing, exactly when the state responds to it: the client of a
session with command 0x04 has sent something, takes a part of the frame or reports no error, a
datagram socket has a datagram or an error to be fetched, and no error of the 5G socket waits behind
a pending frame. -/
theorem udp_event_handled_iff (inBuf outBuf lenBytes : ℕ → UInt8) (localUdpFd : ℤ)
    (remoteUdpFd : ℕ) (peer : SrcAddr) (start : Time) (es : List UdpConnEvent) (s : UdpConn)
    (hrun : run udpConnStep
      (.udpStartSession inBuf outBuf lenBytes localUdpFd remoteUdpFd peer start) es = some s)
    (now : Time) (role : UdpRole) (hs : List UdpConnEvent)
    (hhandler : ∀ e ∈ hs, e.ofHandler = true) (t : UdpConn)
    (hpass : run udpConnStep s (.wakeup now role :: hs) = some t)
    (hend : t.pc = .wait ∨ t.pc = .closed) :
    s.Handled t role ↔ s.Responds t.clientCtlOk t.remoteCtlOk role := by
  have hinv : ConnInv s := run_invariant (fun _ _ _ h ht => udpConnStep_inv h ht)
    (UdpConn.udpStartSession_inv inBuf outBuf lenBytes localUdpFd remoteUdpFd peer start) hrun
  obtain ⟨u, hu, hrest⟩ := run_cons_eq_some.mp hpass
  simp only [udpConnStep, UdpConn.wakeup] at hu
  split_ifs at hu with hwake
  cases hu
  obtain ⟨hpc, hev, -⟩ := hwake
  obtain ⟨hinv', hcase⟩ : UdpConn.PassInv s role t :=
    run_invariant_of_meets (fun _ _ _ h he ht => h.step (udpConnStep_ofHandler he ht))
      (UdpConn.startHandler_pass hinv hpc now hev) (Meets.of_forall hhandler _) hrest
  rcases hcase with ⟨hsame, hf, hrole, hm⟩ | ⟨hb, hacts⟩
  · have hwait : t.pc = .wait := by
      refine hend.resolve_right fun hclosed => ?_
      simp only [UdpConn.Found, hclosed] at hf
    have hb := hf.barren (Or.inr (Or.inr hwait))
    rw [hrole, hsame.barren_iff] at hb
    simp only [UdpConn.Masks, hwait] at hm
    rw [← hsame.quiet_iff hinv hb hev hm.1 hm.2]
    refine ⟨fun hhandled => ?_, fun hquiet => Or.inr (Or.inr (Or.inr hquiet))⟩
    rcases hhandled with hmoved | hchanged | hclosed | hquiet
    · exact absurd hmoved (by rw [hsame.moved]; exact lt_irrefl _)
    · exact absurd hsame.session hchanged
    · rw [hinv'.opened (by rw [hwait]; rintro ⟨⟩)] at hclosed
      cases hclosed
    · exact hquiet
  · refine iff_of_true ?_ (UdpConn.responds_of_not_barren hb _ _)
    rcases hacts with hmoved | hpc' | hclosed
    · exact Or.inl hmoved
    · rcases hend with hend | hend <;> rw [hend] at hpc' <;> cases hpc'
    · exact Or.inr (Or.inr (Or.inl hclosed))

/-- A datagram that is too short for a header, on a session with command 0x03. -/
theorem udp_event_handled_iff_short :
    ∃ s t, run udpConnStep (freshSession 5)
        [.network (.localArrive ⟨.inet (octets 192 0 2 1) (0, 53), [1]⟩)] = some s ∧
      run udpConnStep s [.wakeup 8 .localUdp, .recvfrom, .recvfrom, .proceed, .proceed] = some t ∧
      s.Handled t .localUdp :=
  ⟨_, _, rfl, rfl, (udp_event_handled_iff (fun _ => 0) (fun _ => 0) (fun _ => 0) 5 6
    (.inet (octets 127 0 0 1) (0, 1)) 7
    [.network (.localArrive ⟨.inet (octets 192 0 2 1) (0, 53), [1]⟩)] _ rfl 8 .localUdp
    [.recvfrom, .recvfrom, .proceed, .proceed] (by decide) _ rfl (Or.inl rfl)).mpr
      fun h => List.cons_ne_nil _ _ h.2⟩

/-! ### A pending error behind a pending frame -/

namespace UdpConn

/-- The 5G socket of a session with command 0x04 holds an error while a frame is pending, and the
masks are those the frame asks for. -/
structure Spins (s : UdpConn) : Prop where
  pc : s.pc = .wait
  neg : s.session.localUdpFd < 0
  outLen_pos : 0 < s.session.outLen
  err : s.remote.err.isSome = true
  client : s.clientEvents = s.session.clientInterest
  remote : s.remoteEvents = s.session.remoteInterest

/-- The whole handling of an event of the 5G socket while a frame is pending. -/
def spinPass (now : Time) : List UdpConnEvent :=
  [.wakeup now .remote, .proceed, .proceed, .proceed]

theorem Spins.not_quiet {s : UdpConn} (h : Spins s) : ¬ s.Quiet .remote := by
  intro hquiet
  simp only [Quiet, reported, EpollEvents.any, EpollEvents.reported, PolledDatagrams.ready, h.err,
    Bool.or_true, Bool.true_or] at hquiet
  cases hquiet

/-- The event is handled without a call and reported again; only `last_active` is new. -/
theorem Spins.pass {s : UdpConn} (h : Spins s) (now : Time) :
    ∃ t, run udpConnStep s (spinPass now) = some t ∧ Spins t ∧ Same s t ∧
      t.session.lastActive = now := by
  have hev : (s.reported .remote).any = true := by
    cases hany : (s.reported .remote).any with
    | true => rfl
    | false => exact absurd hany h.not_quiet
  have hgo : s.session.localUdpFd < 0 ∧ 0 < s.session.outLen := ⟨h.neg, h.outLen_pos⟩
  let t : UdpConn := { s with
    session := { s.session with lastActive := now }
    pc := .wait
    role := .remote
    now := now
    ev := s.reported .remote
    clientCtlOk := true
    remoteCtlOk := true }
  have hwake : udpConnStep s (.wakeup now .remote) = some { t with pc := .recvRemote } :=
    if_pos ⟨h.pc, hev, nofun⟩
  have hrecv : udpConnStep { t with pc := .recvRemote } .proceed =
      some { t with pc := .updateClient } := if_pos hgo
  have hclient : udpConnStep { t with pc := .updateClient } .proceed =
      some { t with pc := .updateRemote } := if_pos h.client
  have hremote : udpConnStep { t with pc := .updateRemote } .proceed = some t :=
    if_neg fun hne => hne.2.2 h.remote
  refine ⟨t, ?_, ⟨rfl, h.neg, h.outLen_pos, h.err, h.client, h.remote⟩,
    ⟨rfl, rfl, rfl, rfl, rfl⟩, rfl⟩
  rw [spinPass, run_cons_eq hwake, run_cons_eq hrecv, run_cons_eq hclient, run_cons_eq hremote]
  rfl

/-- So it goes on for any number of events, and the session is as active as if it were used. -/
theorem Spins.forever {s : UdpConn} (h : Spins s) (nows : List Time) :
    ∃ t, run udpConnStep s (nows.flatMap spinPass) = some t ∧ Spins t ∧ Same s t ∧
      t.session.lastActive = nows.getLastD s.session.lastActive := by
  induction nows generalizing s with
  | nil => exact ⟨s, rfl, h, .refl s, rfl⟩
  | cons now nows ih =>
      obtain ⟨t, ht, hspins, hsame, hactive⟩ := h.pass now
      obtain ⟨u, hu, hspins', hsame', hactive'⟩ := ih hspins
      refine ⟨u, ?_, hspins', hsame.trans hsame', ?_⟩
      · rw [List.flatMap_cons]
        exact run_append_of_eq ht hu
      · rw [hactive', hactive, List.getLastD_cons]

end UdpConn

/-- A datagram for a client that takes nothing, and then an error of the 5G socket. -/
def pendingErrorRun : List UdpConnEvent :=
  [.network (.remoteArrive ⟨.inet (octets 192 0 2 1) (0, 53), [1, 2, 3]⟩), .wakeup 8 .remote,
    .recvfrom, .send 0, .proceed, .clientCtl true, .remoteCtl true, .network (.remoteErr 103)]

/-- There the event is handled without effect and EPOLLERR of the 5G socket is still ready. -/
theorem hot_loop_pendingError :
    ¬ ∀ s, run udpConnStep (freshSession (-1)) pendingErrorRun = some s →
      ∀ now t, run udpConnStep s (UdpConn.spinPass now) = some t → s.Handled t .remote := by
  intro h
  obtain ⟨s, hs, hspins⟩ : ∃ s, run udpConnStep (freshSession (-1)) pendingErrorRun = some s ∧
      (s.pc = .wait ∧ s.session.localUdpFd < 0 ∧ 0 < s.session.outLen ∧
        s.remote.err.isSome = true ∧ s.clientEvents = s.session.clientInterest ∧
        s.remoteEvents = s.session.remoteInterest ∧ s.session.closed = false) :=
    exists_run_of_any (by decide +kernel)
  obtain ⟨hpc, hneg, hout, herr, hclient, hremote, hopen⟩ := hspins
  obtain ⟨t, ht, hspins', hsame, -⟩ :=
    UdpConn.Spins.pass ⟨hpc, hneg, hout, herr, hclient, hremote⟩ 9
  rcases h s hs 9 t ht with hmoved | hchanged | hclosed | hquiet
  · exact absurd hmoved (by rw [hsame.moved]; exact lt_irrefl _)
  · exact hchanged hsame.session
  · rw [hsame.session] at hclosed
    rw [show s.session.closed = true from hclosed] at hopen
    cases hopen
  · exact hspins'.not_quiet hquiet

end FiveGProxy
