import FiveGProxy.Handshake.Grammar

/-!
# The reply to a request

A client should be told REP 0x00 exactly when it gets a session, and should be told before the
connection is closed or handed over. Between the reply 0x00 and the registration there is still
room for a refusal, and two refusals send no reply at all.
-/

namespace FiveGProxy

open Ledger SlotFields

/-- `client_fd` is closed, or a worker gets hold of it. -/
def Effect.parts : Effect → Bool
  | .op (.release (.fd .client)) => true
  | .op (.acquire (.link _)) => true
  | _ => false

/-- One reply is sent while the handshake still has the connection, and its REP is 0x00 exactly when
a session is registered. -/
def Honest (log : List Effect) : Prop :=
  ∃ before bytes after, log = before ++ .send bytes :: after ∧ sends before = [] ∧
    sends after = [] ∧ (∀ e ∈ before, e.parts = false) ∧
    (bytes.getD 1 0 = 0x00 ↔ .register ∈ log)

/-- The connection can be put into the list, and all its descriptors can be added. -/
def Registers (o : Outcomes) (ds : List Descriptor) : Prop :=
  o.stopping = false ∧ ∀ d ∈ ds, o.epollAdd d = true

def sessionFds (cmd : UInt8) : List Descriptor :=
  if cmd = 0x03 then [.client, .relay, .egress] else [.client, .egress]

/-- A connection has its quota, and once it has its target nothing fails. A session either fails
before its buffers, or has them and fails at one of its sockets, or nothing fails. -/
def Answered (o : Outcomes) : Request → Prop
  | .connect _ _ =>
      o.connCount < maxConcurrentConns ∧
        (o.connector = true → o.slotAcquire = true ∧ o.inBuf = true ∧ o.outBuf = true ∧
          Registers o [.client, .egress])
  | .session cmd =>
      maxConcurrentConns ≤ o.connCount ∨ o.slotAcquire = false ∨
        o.inBuf = true ∧ o.outBuf = true ∧
          (cmd = 0x03 ∧ o.socketV6 = false ∧ o.socketV4 = false ∨ o.connector = false ∨
            Registers o (sessionFds cmd))

variable {log before after : List Effect} {bytes : List UInt8} {o : Outcomes}

theorem not_honest_of_silent (h : sends log = []) : ¬Honest log := by
  rintro ⟨before, bytes, after, rfl, -⟩
  rw [sends_append] at h
  exact absurd (List.append_eq_nil_iff.mp h).2 nofun

theorem honest_iff_of_send (hbefore : sends before = []) (hafter : sends after = [])
    (hparts : ∀ e ∈ before, e.parts = false) :
    Honest (before ++ .send bytes :: after) ↔
      (bytes.getD 1 0 = 0x00 ↔ .register ∈ before ++ .send bytes :: after) := by
  have hsends : ∀ {before after : List Effect} {bytes : List UInt8}, sends before = [] →
      sends after = [] → sends (before ++ .send bytes :: after) = [bytes] := by
    intro before after bytes hbefore hafter
    rw [sends_append, hbefore]
    exact congrArg (bytes :: ·) hafter
  constructor
  · rintro ⟨before', bytes', after', heq, hbefore', hafter', -, hrep⟩
    have hlog := @hsends before after bytes hbefore hafter
    rw [heq, hsends hbefore' hafter'] at hlog
    exact (List.head_eq_of_cons_eq hlog) ▸ hrep
  · exact fun hrep => ⟨before, bytes, after, rfl, hbefore, hafter, hparts, hrep⟩

theorem sends_map_release (rs : List Resource) : sends (rs.map release) = [] := by
  induction rs with
  | nil => rfl
  | cons r rs ih => exact ih

theorem register_notMem_map_release (rs : List Resource) : Effect.register ∉ rs.map release := by
  intro hmem
  obtain ⟨r, -, heq⟩ := List.mem_map.mp hmem
  cases heq

def Silent (unref : SlotFields → List Effect) : Prop :=
  ∀ c, sends (unref c) = [] ∧ .register ∉ unref c

theorem silent_connUnref : Silent connUnref := by
  intro c
  unfold connUnref connFinalize
  split
  · split
    · exact ⟨rfl, List.not_mem_nil⟩
    · exact ⟨sends_map_release _, register_notMem_map_release _⟩
  · exact ⟨rfl, List.not_mem_nil⟩

theorem silent_udpConnUnref : Silent udpConnUnref := by
  intro c
  unfold udpConnUnref udpConnFinalize
  split
  · split
    · exact ⟨rfl, List.not_mem_nil⟩
    · exact ⟨sends_map_release _, register_notMem_map_release _⟩
  · exact ⟨rfl, List.not_mem_nil⟩

theorem addAll_answer {unref : SlotFields → List Effect} (hunref : Silent unref)
    (ds : List Descriptor) (c : SlotFields) :
    sends (addAll unref o ds c) = [] ∧
      (.register ∈ addAll unref o ds c ↔ ∀ d ∈ ds, o.epollAdd d = true) := by
  induction ds generalizing c with
  | nil => simp [addAll, sends]
  | cons d ds ih =>
      rw [addAll]
      cases hd : o.epollAdd d with
      | true =>
          obtain ⟨hsends, hreg⟩ := ih { c with watched := Function.update c.watched d true }
          refine ⟨hsends, ?_⟩
          rw [if_pos rfl, List.mem_cons, or_iff_right (by rintro ⟨⟩), hreg, List.forall_mem_cons,
            and_iff_right hd]
      | false =>
          obtain ⟨hsends, hreg⟩ := hunref { c with linked := false, closed := true }
          refine ⟨hsends, ?_⟩
          rw [if_neg (by decide), List.mem_cons, or_iff_right (by rintro ⟨⟩), List.forall_mem_cons, hd]
          simp [hreg]

theorem enlist_answer {unref : SlotFields → List Effect} (hunref : Silent unref)
    (ds : List Descriptor) (c : SlotFields) :
    sends (enlist unref o ds c) = [] ∧ (.register ∈ enlist unref o ds c ↔ Registers o ds) := by
  unfold enlist Registers
  cases hstop : o.stopping with
  | true => simp [(hunref c).1, (hunref c).2]
  | false =>
      obtain ⟨hsends, hreg⟩ := addAll_answer (o := o) hunref ds { c with linked := true }
      refine ⟨hsends, ?_⟩
      rw [if_neg (by decide), List.mem_cons, or_iff_right (by nofun), hreg, and_iff_right rfl]

def Quiet (log : List Effect) : Prop :=
  sends log = [] ∧ .register ∉ log ∧ ∀ e ∈ log, e.parts = false

theorem mallocs_quiet (o : Outcomes) : Quiet (mallocs o) := by
  unfold Quiet mallocs
  cases o.inBuf <;> cases o.outBuf <;> simp [sends, Effect.parts]

theorem handoffToWorker_answer :
    sends o.handoffToWorker = [] ∧
      (.register ∈ o.handoffToWorker ↔ o.slotAcquire = true ∧ o.inBuf = true ∧ o.outBuf = true ∧
        Registers o [.client, .egress]) := by
  obtain ⟨hquiet, hmallocs, -⟩ := mallocs_quiet o
  rw [Outcomes.handoffToWorker]
  cases o.slotAcquire with
  | false => simp [sends]
  | true =>
      have hsends : ∀ l, sends (acquire .slot :: mallocs o ++ l) = sends l := fun l =>
        (sends_append (mallocs o) l).trans (by rw [hquiet, List.nil_append])
      have hreg : ∀ l, .register ∈ acquire .slot :: mallocs o ++ l ↔ .register ∈ l := by
        intro l
        simp [hmallocs]
      rw [if_pos rfl, hsends, hreg]
      by_cases hbufs : (o.inBuf && o.outBuf) = true
      · obtain ⟨hin, hout⟩ := Bool.and_eq_true_iff.mp hbufs
        rw [if_pos hbufs, hin, hout]
        simpa using enlist_answer silent_connUnref [.client, .egress] (prepared o true)
      · obtain ⟨hquiet, hnone⟩ := silent_connUnref (prepared o true)
        rw [if_neg hbufs]
        rw [Bool.and_eq_true] at hbufs
        refine ⟨hquiet, iff_of_false hnone ?_⟩
        rintro ⟨-, hin, hout, -⟩
        exact hbufs ⟨hin, hout⟩

theorem honest_iff_of_reply (hbefore : Quiet before) (hafter : sends after = [])
    (hrep : bytes.getD 1 0 = 0x00) :
    Honest (before ++ .send bytes :: after) ↔ .register ∈ after := by
  rw [honest_iff_of_send hbefore.1 hafter hbefore.2.2, iff_true_left hrep, List.mem_append,
    or_iff_right hbefore.2.1, List.mem_cons, or_iff_right (by nofun)]

theorem honest_of_refusal (hbefore : Quiet before) (hafter : sends after = [])
    (hreg : .register ∉ after) (hrep : bytes.getD 1 0 ≠ 0x00) :
    Honest (before ++ .send bytes :: after) := by
  rw [honest_iff_of_send hbefore.1 hafter hbefore.2.2, iff_false_left hrep, List.mem_append,
    List.mem_cons]
  rintro (hmem | heq | hmem)
  · exact hbefore.2.1 hmem
  · cases heq
  · exact hreg hmem

theorem zeroReply_rep (rep : UInt8) : (zeroReply rep).getD 1 0 = rep := rfl

theorem associateReply_rep (o : Outcomes) : (associateReply o).getD 1 0 = 0x00 := by
  unfold associateReply
  cases o.clientName <;> rfl

theorem Quiet.append (hbefore : Quiet before) (hafter : Quiet after) : Quiet (before ++ after) := by
  obtain ⟨hsends, hreg, hparts⟩ := hbefore
  refine ⟨?_, ?_, ?_⟩
  · rw [sends_append, hsends, hafter.1, List.append_nil]
  · exact fun hmem => (List.mem_append.mp hmem).elim hreg hafter.2.1
  · exact fun e he => (List.mem_append.mp he).elim (hparts e) (hafter.2.2 e)

theorem udpConnect_honest {resp : List UInt8} (hresp : resp.getD 1 0 = 0x00)
    (hbefore : Quiet before) (ds : List Descriptor) (c : SlotFields) :
    Honest (before ++ udpConnect o resp ds c) ↔ o.connector = false ∨ Registers o ds := by
  rw [udpConnect]
  cases o.connector with
  | true =>
      have hquiet : Quiet (before ++ [.requestJava5gSocket (.name []) 0 true,
          acquire .javaSocket, acquire (.fd .egress)]) :=
        hbefore.append ⟨rfl, by decide, by decide⟩
      obtain ⟨hsends, hreg⟩ :=
        enlist_answer (o := o) silent_udpConnUnref ds { c with egressFd := true }
      have hhonest := honest_iff_of_reply hquiet hsends hresp
      rw [List.append_assoc] at hhonest
      rw [if_pos rfl]
      simpa [hreg] using hhonest
  | false =>
      have hquiet : Quiet (before ++ [.requestJava5gSocket (.name []) 0 true]) :=
        hbefore.append ⟨rfl, by decide, by decide⟩
      obtain ⟨hsends, hreg⟩ := silent_udpConnUnref c
      have hreply : (zeroReply 0x04).getD 1 0 ≠ 0x00 := by decide
      have hhonest := honest_of_refusal hquiet hsends hreg hreply
      rw [List.append_assoc] at hhonest
      simpa using hhonest

theorem connect_honest (host : TargetHost) (port : ℕ) :
    Honest (serve o (.connect host port)) ↔ Answered o (.connect host port) := by
  rw [serve, Answered]
  by_cases hquota : maxConcurrentConns ≤ o.connCount
  · rw [if_pos hquota]
    exact iff_of_false (not_honest_of_silent rfl) fun h => absurd h.1 hquota.not_gt
  · rw [if_neg hquota, and_iff_right (not_le.mp hquota)]
    cases o.connector with
    | false =>
        have hquiet : Quiet [acquire .quota, .requestJava5gSocket host port false,
            release .quota] := ⟨rfl, by simp, by simp [Effect.parts]⟩
        refine iff_of_true (honest_of_refusal hquiet ?_ ?_ ?_) (by rintro ⟨⟩)
        · rfl
        · decide
        · decide
    | true =>
        have hquiet : Quiet [acquire .quota, .requestJava5gSocket host port false,
            acquire .javaSocket, acquire (.fd .egress)] := ⟨rfl, by simp, by simp [Effect.parts]⟩
        obtain ⟨hsends, hreg⟩ := handoffToWorker_answer (o := o)
        have hhonest := (honest_iff_of_reply hquiet hsends (zeroReply_rep 0x00)).trans hreg
        exact hhonest.trans ⟨fun h _ => h, fun h => h rfl⟩

theorem session_honest (cmd : UInt8) (hbefore : Quiet before) :
    Honest (before ++
      if cmd = 0x03 then
        if o.socketV6 || o.socketV4 then
          acquire (.fd .relay) ::
            udpConnect o (associateReply o) [.client, .relay, .egress]
              { prepared o false with relayFd := true }
        else .send (zeroReply 0x01) :: udpConnUnref (prepared o false)
      else udpConnect o (zeroReply 0x00) [.client, .egress] (prepared o false)) ↔
    cmd = 0x03 ∧ o.socketV6 = false ∧ o.socketV4 = false ∨ o.connector = false ∨
      Registers o (sessionFds cmd) := by
  rw [sessionFds]
  by_cases hcmd : cmd = 0x03
  · rw [if_pos hcmd, if_pos hcmd]
    by_cases hsocket : (o.socketV6 || o.socketV4) = true
    · have hrelay := udpConnect_honest (o := o) (associateReply_rep o)
        (hbefore.append (show Quiet [acquire (.fd .relay)] from ⟨rfl, by decide, by decide⟩))
        [.client, .relay, .egress] { prepared o false with relayFd := true }
      rw [List.append_assoc] at hrelay
      have hnone : ¬(cmd = 0x03 ∧ o.socketV6 = false ∧ o.socketV4 = false) := by
        rintro ⟨-, hv6, hv4⟩
        rw [hv6, hv4] at hsocket
        exact absurd hsocket (by decide)
      rw [if_pos hsocket, or_iff_right hnone]
      exact hrelay
    · obtain ⟨hsends, hreg⟩ := silent_udpConnUnref (prepared o false)
      rw [if_neg hsocket]
      exact iff_of_true (honest_of_refusal hbefore hsends hreg (by decide))
        (.inl (by simpa [hcmd] using hsocket))
  · rw [if_neg hcmd, if_neg hcmd, or_iff_right (fun h => hcmd h.1)]
    exact udpConnect_honest (zeroReply_rep 0x00) hbefore [.client, .egress] (prepared o false)

/-- The reply is honest exactly for these outcomes. A connection beyond the quota is closed without a
reply. A connection that has been told REP 0x00 is closed when there is no slot for it, no buffer, no
worker that still runs or no place in the epoll instance. A session without buffers is closed without
a reply, and one that has been told REP 0x00 can still fail at the worker. -/
theorem honest_replies (o : Outcomes) (r : Request) : Honest (serve o r) ↔ Answered o r := by
  cases r with
  | connect host port => exact connect_honest host port
  | session cmd =>
      rw [serve, udpStartSession, Answered]
      by_cases hquota : maxConcurrentConns ≤ o.connCount
      · have hquiet : Quiet [.udpStartSession cmd, acquire .quota, release .quota] :=
          ⟨rfl, by simp, by simp [Effect.parts]⟩
        rw [if_pos hquota]
        exact iff_of_true (honest_of_refusal hquiet rfl (by decide) (by decide)) (.inl hquota)
      rw [if_neg hquota, or_iff_right hquota]
      cases o.slotAcquire with
      | false =>
          have hquiet : Quiet [.udpStartSession cmd, acquire .quota, release .quota] :=
            ⟨rfl, by simp, by simp [Effect.parts]⟩
          exact iff_of_true (honest_of_refusal hquiet rfl (by decide) (by decide)) (.inl rfl)
      | true =>
          have hquiet : Quiet ([.udpStartSession cmd, acquire .quota, acquire .slot] ++ mallocs o) :=
            Quiet.append ⟨rfl, by simp, by simp [Effect.parts]⟩ (mallocs_quiet o)
          rw [if_pos rfl, or_iff_right (by decide)]
          by_cases hbufs : (o.inBuf && o.outBuf) = true
          · obtain ⟨hin, hout⟩ := Bool.and_eq_true_iff.mp hbufs
            rw [if_pos hbufs, and_iff_right hin, and_iff_right hout]
            exact session_honest cmd hquiet
          · rw [if_neg hbufs]
            have hsilent := (silent_udpConnUnref (prepared o false)).1
            refine iff_of_false (not_honest_of_silent ?_) ?_
            · have hsends := sends_append
                ([.udpStartSession cmd, acquire .quota, acquire .slot] ++ mallocs o)
                (udpConnUnref (prepared o false))
              rw [hquiet.1, hsilent] at hsends
              exact hsends
            · rintro ⟨hin, hout, -⟩
              exact hbufs (Bool.and_eq_true_iff.mpr ⟨hin, hout⟩)

/-- A client is told REP 0x00, and then there is no memory for its buffers. -/
theorem connect_told_then_closed :
    ¬Honest (serve { Outcomes.allGood with inBuf := false }
      (.connect (.name [0x78]) 80)) := by
  rw [connect_honest]
  rintro ⟨-, hbufs⟩
  exact absurd (hbufs rfl).2.1 (by decide)

end FiveGProxy
