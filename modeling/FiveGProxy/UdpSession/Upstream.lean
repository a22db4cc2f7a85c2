import FiveGProxy.UdpSession.Session
import FiveGProxy.Library.LengthPrefixed

/-!
# Reassembly of the client stream

The handler of the client socket keeps four progress counters and may return inside the length
field, behind it, or inside the body. `Session.reader` reads them as a state of the incremental
reader of the stream library, and `UpstreamInv` says that this reader has been fed exactly the
bytes `recv` has returned and that the completed bodies have been routed. One turn of the
reading loop keeps it, whatever the kernel answers, so the cut of the stream plays no part.
-/

namespace FiveGProxy

open Memory LengthPrefixed

def frameLen (a b : UInt8) : Option ℕ := socks5UdpTcpFrameLen (a, b) bufferSize

theorem frameLen_bounds {a b : UInt8} {n : ℕ} (h : frameLen a b = some n) :
    4 ≤ n ∧ n < bufferSize := by
  have ha := a.toNat_lt
  have hb := b.toNat_lt
  rw [frameLen, socks5UdpTcpFrameLen_eq] at h
  split at h
  · cases h
  · cases h
    unfold bufferSize
    omega

namespace Session

def upstream (s : Session) :=
  (s.inBuf, s.lenBytes, s.lenGot, s.frameExpect, s.frameGot, s.received, s.routed, s.localUdpFd)

def reader (s : Session) : Reader UInt8 :=
  if s.closeKind = .proto then .stopped
  else if s.lenGot = 0 then .field none
  else if s.lenGot = 1 then .field (some (s.lenBytes 0))
  else .body s.frameExpect (slice s.inBuf 0 s.frameGot)

end Session

/-- The reader has been fed the received bytes, and what it completed has been routed. -/
structure UpstreamInv (s : Session) : Prop where
  fed : ∃ bodies, feed frameLen (.field none) s.received = (s.reader, bodies) ∧
    s.routed = bodies.filterMap routeOf
  lenGot_le : s.lenGot ≤ 2
  body : s.lenGot = 2 → s.closeKind ≠ .proto →
    s.frameGot < s.frameExpect ∧ s.frameExpect < bufferSize
  localUdpFd_neg : s.localUdpFd < 0

/-- What does not touch the upstream direction and reports no violation keeps the invariant. -/
theorem UpstreamInv.of_eq {s t : Session} (h : UpstreamInv s) (hopen : s.closeKind ≠ .proto)
    (hkind : t.closeKind ≠ .proto) (heq : t.upstream = s.upstream) : UpstreamInv t := by
  simp only [Session.upstream, Prod.mk.injEq] at heq
  obtain ⟨hin, hlen, hgot, hexpect, hframe, hreceived, hroutes, hfd⟩ := heq
  have hreader : t.reader = s.reader := by
    rw [Session.reader, if_neg hkind, Session.reader, if_neg hopen, hin, hlen, hgot, hexpect,
      hframe]
  obtain ⟨bodies, hfed, hrouted⟩ := h.fed
  refine ⟨⟨bodies, by rw [hreceived, hreader, hfed], by rw [hroutes, hrouted]⟩,
    by rw [hgot]; exact h.lenGot_le, fun h2 _ => ?_, by rw [hfd]; exact h.localUdpFd_neg⟩
  rw [hframe, hexpect]
  exact h.body (hgot ▸ h2) hopen

/-- The reader after a complete length field: a violation stops it, a legal length starts the
body. -/
theorem checkLenField_inv {s : Session} {received : List UInt8} {a b : UInt8}
    {bodies : List (List UInt8)} (hopen : s.closeKind ≠ .proto)
    (hfed : feed frameLen (.field none) received = (.field (some a), bodies))
    (hrouted : s.routed = bodies.filterMap routeOf) (hreceived : s.received = received ++ [b])
    (hlen : s.lenGot = 2) (ha : s.lenBytes 0 = a) (hb : s.lenBytes 1 = b)
    (hfd : s.localUdpFd < 0) :
    UpstreamInv (checkLenField s).1 ∧
      ((checkLenField s).1.closeKind = .proto → (checkLenField s).2 = some .close) := by
  have hfeed : feed frameLen (.field none) s.received =
      ((feed1 frameLen (.field (some a)) b).1,
        bodies ++ (feed1 frameLen (.field (some a)) b).2) := by
    rw [hreceived, feed_append, hfed, feed_singleton]
  have hfield : socks5UdpTcpFrameLen (s.lenBytes 0, s.lenBytes 1) bufferSize = frameLen a b := by
    rw [ha, hb, frameLen]
  have hcheck : ¬ s.lenGot < 2 := by omega
  cases hab : frameLen a b with
  | none =>
      simp only [checkLenField, if_neg hcheck, hfield, hab]
      refine ⟨⟨⟨bodies, ?_, hrouted⟩, le_of_eq hlen, fun _ hp => (hp rfl).elim, hfd⟩,
        fun _ => trivial⟩
      simpa [feed1, hab, Session.reader, Session.closeWith] using hfeed
  | some n =>
      have hn := frameLen_bounds hab
      have hn0 : n ≠ 0 := by omega
      simp only [checkLenField, if_neg hcheck, hfield, hab]
      refine ⟨⟨⟨bodies, ?_, hrouted⟩, le_of_eq hlen, fun _ _ => ⟨?_, hn.2⟩, hfd⟩,
        fun hp => (hopen hp).elim⟩
      · simpa [feed1, hab, enter, hn0, Session.reader, hopen, hlen] using hfeed
      · show 0 < n
        omega

/-- The bytes one `recv` inside the length field can return. -/
theorem recvLenField_bytes {lenGot : ℕ} (h : lenGot < 2) (b : UInt8) (bs : List UInt8) :
    lenGot = 0 ∧ RecvResult.bytes b bs (2 - lenGot) = [b] ∨
      lenGot = 1 ∧ RecvResult.bytes b bs (2 - lenGot) = [b] ∨
      lenGot = 0 ∧ ∃ c, RecvResult.bytes b bs (2 - lenGot) = [b, c] := by
  rcases (show lenGot = 0 ∨ lenGot = 1 by omega) with rfl | rfl
  · cases bs with
    | nil => exact Or.inl ⟨rfl, rfl⟩
    | cons c cs => exact Or.inr (Or.inr ⟨rfl, c, rfl⟩)
  · exact Or.inr (Or.inl ⟨rfl, rfl⟩)

theorem recvLenField_inv {s : Session} (h : UpstreamInv s) (hopen : s.closeKind ≠ .proto)
    (hlt : s.lenGot < 2) (r : RecvResult) :
    UpstreamInv (recvLenField s r).1 ∧
      ((recvLenField s r).1.closeKind = .proto → (recvLenField s r).2 = some .close) := by
  obtain ⟨bodies, hfed, hrouted⟩ := h.fed
  cases r with
  | again => exact ⟨h, fun hp => (hopen hp).elim⟩
  | eof => exact ⟨h.of_eq hopen (by rintro ⟨⟩) rfl, fun _ => rfl⟩
  | error e => exact ⟨h.of_eq hopen (by rintro ⟨⟩) rfl, fun _ => rfl⟩
  | data b bs =>
      -- one byte of the field, its second byte, or both at once
      rcases recvLenField_bytes hlt b bs with ⟨h0, hb⟩ | ⟨h1, hb⟩ | ⟨h0, c, hb⟩
      · have hreader : s.reader = .field none := by simp [Session.reader, hopen, h0]
        rw [hreader] at hfed
        have h1 : (s.storeLenBytes [b]).lenGot = 1 := by simp [Session.storeLenBytes, h0]
        have hlt' : (s.storeLenBytes [b]).lenGot < 2 := by omega
        rw [recvLenField, hb, checkLenField, if_pos hlt']
        refine ⟨⟨⟨bodies, ?_, hrouted⟩, by rw [h1]; decide, fun h2 => ?_, h.localUdpFd_neg⟩,
          fun hp => (hopen hp).elim⟩
        · show feed frameLen (.field none) (s.received ++ [b]) = _
          rw [feed_append, hfed, feed_singleton]
          simp [Session.reader, Session.storeLenBytes, hopen, h0, feed1, write]
        · rw [h1] at h2
          cases h2
      · have hreader : s.reader = .field (some (s.lenBytes 0)) := by
          simp [Session.reader, hopen, h1]
        rw [hreader] at hfed
        rw [recvLenField, hb]
        exact checkLenField_inv hopen hfed hrouted rfl (by simp [Session.storeLenBytes, h1])
          (by simp [Session.storeLenBytes, h1, write]) (by simp [Session.storeLenBytes, h1, write])
          h.localUdpFd_neg
      · have hreader : s.reader = .field none := by simp [Session.reader, hopen, h0]
        rw [hreader] at hfed
        have hfirst : feed frameLen (.field none) (s.received ++ [b]) =
            (.field (some b), bodies) := by
          rw [feed_append, hfed, feed_singleton]
          simp [feed1]
        rw [recvLenField, hb]
        have hreceived : (s.storeLenBytes [b, c]).received = (s.received ++ [b]) ++ [c] := by
          simp [Session.storeLenBytes]
        exact checkLenField_inv hopen hfirst hrouted hreceived
          (by simp [Session.storeLenBytes, h0]) (by simp [Session.storeLenBytes, h0, write])
          (by simp [Session.storeLenBytes, h0, write]) h.localUdpFd_neg

/-- The end of the body loop: an incomplete body is kept, a complete one is routed once. -/
theorem finishFrame_inv {s : Session} {received bytes : List UInt8} {got : List UInt8}
    {bodies : List (List UInt8)} (now : Time) (hopen : s.closeKind ≠ .proto) (h2 : s.lenGot = 2)
    (hfed : feed frameLen (.field none) received = (.body s.frameExpect got, bodies))
    (hrouted : s.routed = bodies.filterMap routeOf) (hreceived : s.received = received ++ bytes)
    (hgot : got.length < s.frameExpect) (hbuf : slice s.inBuf 0 s.frameGot = got ++ bytes)
    (hle : s.frameGot ≤ s.frameExpect) (hmax : s.frameExpect < bufferSize)
    (hfd : s.localUdpFd < 0) :
    UpstreamInv (finishFrame now s) ∧ (finishFrame now s).closeKind ≠ .proto := by
  have hlen : s.frameGot = got.length + bytes.length := by
    have h := congrArg List.length hbuf
    rwa [length_slice, List.length_append] at h
  have hfeed : feed frameLen (.field none) s.received =
      ((feed frameLen (.body s.frameExpect got) bytes).1,
        bodies ++ (feed frameLen (.body s.frameExpect got) bytes).2) := by
    rw [hreceived, feed_append, hfed]
  by_cases hlt : s.frameGot < s.frameExpect
  · rw [feed_body_of_lt frameLen (by omega)] at hfeed
    rw [finishFrame, if_pos hlt]
    refine ⟨⟨⟨bodies, ?_, hrouted⟩, le_of_eq h2, fun _ _ => ⟨hlt, hmax⟩, hfd⟩, hopen⟩
    simpa [Session.reader, hopen, h2, hbuf] using hfeed
  · have hfull : s.frameGot = s.frameExpect := by omega
    rw [feed_body_of_eq frameLen hgot (by omega)] at hfeed
    rw [finishFrame, if_neg hlt]
    refine ⟨⟨⟨bodies ++ [got ++ bytes], ?_, ?_⟩, Nat.zero_le _, fun h => ?_, hfd⟩, hopen⟩
    · simpa [Session.reader, hopen] using hfeed
    · rw [List.filterMap_append, ← hrouted, udpFrameCall_eq_routeOf, ← hfull, hbuf]
      cases hroute : routeOf (got ++ bytes) <;> simp [hroute]
    · cases h

/-- The `recv` of the body stays inside `in_buf` and keeps the invariant. -/
theorem recvFrameBody_inv {s : Session} (h : UpstreamInv s) (hopen : s.closeKind ≠ .proto)
    (hge : ¬ s.lenGot < 2) (now : Time) (r : RecvResult) :
    ∃ p, recvFrameBody s r = some p ∧ UpstreamInv (finishFrame now p.1) ∧
      (finishFrame now p.1).closeKind ≠ .proto := by
  have h2 : s.lenGot = 2 := by have := h.lenGot_le; omega
  obtain ⟨hlt, hmax⟩ := h.body h2 hopen
  have hcap : s.frameExpect ≤ udpBufCap := by unfold udpBufCap; omega
  have hkeep : ∀ t : Session, t.frameGot = s.frameGot → t.frameExpect = s.frameExpect →
      finishFrame now t = t := by
    intro t hg he
    rw [finishFrame, if_pos (by omega)]
  unfold recvFrameBody
  rw [if_pos hcap]
  cases r with
  | again => exact ⟨_, rfl, by rw [hkeep s rfl rfl]; exact ⟨h, hopen⟩⟩
  | eof =>
      refine ⟨_, rfl, ?_⟩
      rw [hkeep (s.closeWith _ _ _) rfl rfl]
      exact ⟨h.of_eq hopen (by rintro ⟨⟩) rfl, (by rintro ⟨⟩)⟩
  | error e =>
      refine ⟨_, rfl, ?_⟩
      rw [hkeep (s.closeWith _ _ _) rfl rfl]
      exact ⟨h.of_eq hopen (by rintro ⟨⟩) rfl, (by rintro ⟨⟩)⟩
  | data b bs =>
      obtain ⟨bodies, hfed, hrouted⟩ := h.fed
      have hreader : s.reader = .body s.frameExpect (slice s.inBuf 0 s.frameGot) := by
        simp [Session.reader, hopen, h2]
      rw [hreader] at hfed
      refine ⟨_, rfl, ?_⟩
      have hbytes := RecvResult.length_bytes_le b bs (s.frameExpect - s.frameGot)
      have hbuf := slice_write_append s.inBuf 0 s.frameGot
        (RecvResult.bytes b bs (s.frameExpect - s.frameGot))
      rw [Nat.zero_add] at hbuf
      refine finishFrame_inv now hopen h2 hfed hrouted rfl ?_ hbuf ?_ hmax h.localUdpFd_neg
      · rwa [length_slice]
      · show s.frameGot + _ ≤ s.frameExpect
        omega

theorem clientDataTurn_inv {s : Session} (h : UpstreamInv s) (hopen : s.closeKind ≠ .proto)
    (now : Time) (r : RecvResult) :
    ∃ p, clientDataTurn now s r = some p ∧ UpstreamInv p.1 ∧
      (p.1.closeKind = .proto → p.2 = some .close) := by
  by_cases hlt : s.lenGot < 2
  · exact ⟨_, by rw [clientDataTurn, if_pos hlt], recvLenField_inv h hopen hlt r⟩
  · obtain ⟨p, hp, hinv, hkind⟩ := recvFrameBody_inv h hopen hlt now r
    refine ⟨(finishFrame now p.1, p.2), ?_, hinv, fun hproto => (hkind hproto).elim⟩
    rw [clientDataTurn, if_neg hlt, hp]
    rfl

/-- However the kernel cuts the stream, the reading loop keeps the invariant. -/
theorem clientDataLoop_inv {s : Session} (h : UpstreamInv s) (hopen : s.closeKind ≠ .proto)
    (now : Time) (rs : List RecvResult) :
    ∃ p, clientDataLoop now s rs = some p ∧ UpstreamInv p.1 ∧
      (p.1.closeKind = .proto → p.2 = .close) := by
  induction rs generalizing s with
  | nil => exact ⟨_, rfl, h, fun hp => (hopen hp).elim⟩
  | cons r rs ih =>
      obtain ⟨⟨t, ret⟩, hturn, hinv, hret⟩ := clientDataTurn_inv h hopen now r
      rw [clientDataLoop, hturn]
      cases ret with
      | some ret => exact ⟨_, rfl, hinv, fun hp => Option.some_inj.mp (hret hp)⟩
      | none => exact ih hinv fun hp => nomatch hret hp

theorem udpFlushOut_upstream {s t : Session} {rs rest : List SendResult} {ret : Ret}
    (h : udpFlushOut s rs = some (t, ret, rest)) :
    t.upstream = s.upstream ∧ (t.closeKind = s.closeKind ∨ t.closeKind = .io) := by
  induction rs generalizing s with
  | nil =>
      unfold udpFlushOut at h
      split_ifs at h <;> cases h <;> exact ⟨rfl, Or.inl rfl⟩
  | cons r rs ih =>
      unfold udpFlushOut at h
      split_ifs at h with hlt hcap
      · cases r with
        | again =>
            cases h
            exact ⟨rfl, Or.inl rfl⟩
        | error e =>
            cases h
            exact ⟨rfl, Or.inr rfl⟩
        | sent k =>
            have hrest := ih h
            exact hrest
      · cases h
        exact ⟨rfl, Or.inl rfl⟩

/-- The 5G socket of a session with command 0x04 does not touch the upstream direction. -/
theorem remoteToTcp_upstream {s t : Session} {rs : List RecvfromResult} {ss : List SendResult}
    {ret : Ret} (h : remoteToTcp s rs ss = some (t, ret)) :
    t.upstream = s.upstream ∧ (t.closeKind = s.closeKind ∨ t.closeKind = .io) := by
  induction rs generalizing s ss with
  | nil =>
      cases h
      exact ⟨rfl, Or.inl rfl⟩
  | cons r rs ih =>
      unfold remoteToTcp at h
      split_ifs at h with hout hcap
      · cases h
        exact ⟨rfl, Or.inl rfl⟩
      · cases r with
        | again =>
            cases h
            exact ⟨rfl, Or.inl rfl⟩
        | error e =>
            cases h
            exact ⟨rfl, Or.inr rfl⟩
        | data d =>
            simp only at h
            split_ifs at h with hempty
            · exact ih h
            · obtain ⟨u, hu, h⟩ := Option.bind_eq_some_iff.mp h
              have hframe : u.upstream = s.upstream ∧ u.closeKind = s.closeKind := by
                unfold frameDatagram at hu
                simp only at hu
                split_ifs at hu <;> cases hu <;> exact ⟨rfl, rfl⟩
              split at h
              · cases h
              · rename_i hflush
                cases h
                have h' := udpFlushOut_upstream hflush
                rwa [hframe.1, hframe.2] at h'
              · rename_i hflush
                have h' := udpFlushOut_upstream hflush
                rw [hframe.1, hframe.2] at h'
                obtain ⟨h1, h2⟩ := ih h
                rw [h'.1] at h1
                refine ⟨h1, ?_⟩
                rcases h2 with h2 | h2
                · rw [h2]
                  exact h'.2
                · exact Or.inr h2

end FiveGProxy
