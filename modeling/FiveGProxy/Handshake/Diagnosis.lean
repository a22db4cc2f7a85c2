import FiveGProxy.Handshake.SelfTest
import FiveGProxy.Handshake.Replies

/-!
# What the self-test finds out

The self-test against the handshake of the server. What the server has sent back depends on what it
has received so far, and it goes on when more comes. The steps of the test then tell the faults of
the proxy apart: another method, other credentials, no target or no quota, and a connection that has
been given up behind its reply or a target that does not answer.
-/

namespace FiveGProxy

open Socks5ClientProtocol SelfTest CString Memory

/-- The server with its credentials, how its steps turn out, and what the target sends back for what
it is sent. -/
structure Proxy where
  auth : AuthGlobals
  stack : AuthStack
  buf : ℕ → UInt8
  o : Outcomes
  target : List UInt8 → List UInt8

namespace Proxy

def negotiated (x : Proxy) (sent : List UInt8) : Reading Request :=
  negotiate x.auth x.stack ⟨sent, 0, [], x.buf⟩

/-- What has been sent back: the replies, and behind them what the relay brings. -/
def reply (x : Proxy) (sent : List UInt8) : List UInt8 :=
  match x.negotiated sent with
  | .overflow => []
  | .err y => y.sent.flatten
  | .ok r y => y.sent.flatten ++ (sends (serve x.o r)).flatten ++
      if .register ∈ serve x.o r then x.target y.incoming else []

def GaveUp (x : Proxy) (sent : List UInt8) : Prop :=
  ∃ r y, x.negotiated sent = .ok r y ∧ .register ∉ serve x.o r

/-- The test has this proxy on the other side. A `write` fails only when the proxy has closed the
connection. -/
structure Runs (x : Proxy) (p : Peer) : Prop where
  connects : p.connectError = none
  reply : p.reply = x.reply
  writes : ∀ sent, p.writeError sent ≠ none → x.GaveUp sent

def testRequest : Request := .connect (.name (usAscii testHost)) testPort

def testHandshake (user pass : List UInt16) : List UInt8 :=
  greetingRequest (authEnabled user pass) ++
    (if authEnabled user pass then authRequest user pass else []) ++ connectRequest testHost testPort

def lastTalk (user pass : List UInt16) : Talk where
  written := testHandshake user pass ++ http
  pos := (if authEnabled user pass then 4 else 2) + 10

/-- The connection has been registered, and what the test reads begins as an answer should. -/
def Answers (x : Proxy) (p : Peer) (user pass : List UInt16) : Prop :=
  .register ∈ serve x.o testRequest ∧
    "HTTP/".toList <+: asciiChars ((x.target http).take (p.readSize (lastTalk user pass) 4096))

instance (x : Proxy) (p : Peer) (user pass : List UInt16) : Decidable (x.Answers p user pass) :=
  inferInstanceAs (Decidable (_ ∧ _))

end Proxy

def TestResult.marks (r : TestResult) : List (StepKind × Bool) := r.steps.map fun s => (s.kind, s.pass)

def tunnelMarks (o : Outcomes) (answers : Bool) : List (StepKind × Bool) :=
  if o.connCount < maxConcurrentConns ∧ o.connector = true then [(.connect, true), (.data, answers)]
  else [(.connect, false)]

/-- The marks behind the greeting, for the credentials `pair` of the server. -/
def loginMarks (pair : Option (List UInt8 × List UInt8)) (o : Outcomes) (answers : Bool)
    (user pass : List UInt16) : List (StepKind × Bool) :=
  match pair with
  | none => tunnelMarks o answers
  | some p =>
      if p = (Utf8.encode user, Utf8.encode pass) then (.auth, true) :: tunnelMarks o answers
      else [(.auth, false)]

def diagnosis (pair : Option (List UInt8 × List UInt8)) (o : Outcomes) (answers : Bool)
    (user pass : List UInt16) : List (StepKind × Bool) :=
  (.connectSocket, true) ::
    if pair.isSome = authEnabled user pass then
      (.greeting, true) :: loginMarks pair o answers user pass
    else [(.greeting, false)]

/-! ### What the server answers -/

theorem Reading.bind_eq_err {α β : Type} {r : Reading α} {next : α → Exchange → Reading β}
    {y : Exchange} :
    r.bind next = .err y ↔ r = .err y ∨ ∃ a x, r = .ok a x ∧ next a x = .err y := by
  cases r with
  | overflow => simp [bind]
  | err x => simp [bind]
  | ok a x => simp [bind]

theorem recvInto_of_err {x y : Exchange} {size n : ℕ} {dst : ℕ → UInt8}
    (h : x.recvInto size dst n = .err y) : y.sent = x.sent := by
  unfold Exchange.recvInto at h
  split at h
  case isTrue => cases h
  case isFalse =>
    split at h
    case isTrue =>
      cases h
      rfl
    case isFalse => cases h

theorem recv_of_err {x y : Exchange} {n : ℕ} (h : x.recv n = .err y) : y.sent = x.sent := by
  rcases Reading.bind_eq_err.mp h with h | ⟨b, z, -, h⟩
  · exact recvInto_of_err h
  · cases h

theorem recv_of_nil {x : Exchange} (h : x.incoming = []) {n : ℕ} (hn : 0 < n)
    (hsize : n ≤ handshakeBufSize) : ∃ y, x.recv n = .err y ∧ y.sent = x.sent := by
  have hshort : x.incoming.length < n := by rwa [h]
  refine ⟨{ x with incoming := [], consumed := x.consumed + x.incoming.length }, ?_, rfl⟩
  rw [Exchange.recv, Exchange.recvInto, if_neg (Nat.not_lt.mpr hsize), if_pos hshort]
  rfl

theorem Reads.sent_eq {x y : Exchange} {l : List UInt8} (h : Reads x l [] y) : y.sent = x.sent := by
  rw [h.sent, List.append_nil]

theorem doAuthCheck_of_err {stack : AuthStack} {x y : Exchange} {user pass : CharBuf}
    (h : doAuthCheck stack x user pass = .err y) :
    y.sent = x.sent ∨ y.sent = x.sent ++ [[0x01, 0x01]] := by
  have hrecv : ∀ {x z : Exchange} {n : ℕ}, x.recv n = .ok () z → z.sent = x.sent := by
    intro x z n hz
    obtain ⟨l, -, hreads, -⟩ := recv_of_ok hz
    exact hreads.sent_eq
  have hrecvInto : ∀ {x z : Exchange} {size n : ℕ} {dst b : ℕ → UInt8},
      x.recvInto size dst n = .ok b z → z.sent = x.sent := by
    intro x z size n dst b hz
    obtain ⟨l, -, hreads, -⟩ := recvInto_of_ok hz
    exact hreads.sent_eq
  rcases Reading.bind_eq_err.mp h with h | ⟨⟨⟩, x₁, hx₁, h⟩
  · exact Or.inl (recv_of_err h)
  rw [← hrecv hx₁]
  dsimp only at h
  split at h
  case isTrue =>
    cases h
    exact Or.inl rfl
  split at h
  case isTrue =>
    cases h
    exact Or.inl rfl
  rcases Reading.bind_eq_err.mp h with h | ⟨userBuf, x₂, hx₂, h⟩
  · exact Or.inl (recvInto_of_err h)
  rcases Reading.bind_eq_err.mp h with h | ⟨⟨⟩, x₃, hx₃, h⟩
  · exact Or.inl ((recv_of_err h).trans (hrecvInto hx₂))
  rw [← hrecvInto hx₂, ← hrecv hx₃]
  split at h
  case isTrue =>
    cases h
    exact Or.inl rfl
  rcases Reading.bind_eq_err.mp h with h | ⟨passBuf, x₄, hx₄, h⟩
  · split at h
    case isTrue => exact Or.inl (recvInto_of_err h)
    case isFalse => cases h
  have hsent : x₄.sent = x₃.sent := by
    split at hx₄
    case isTrue => exact hrecvInto hx₄
    case isFalse =>
      cases hx₄
      rfl
  split at h
  case isTrue => cases h
  case isFalse =>
    cases h
    exact Or.inr (congrArg (· ++ [[0x01, 0x01]]) hsent)

namespace Proxy

variable {x : Proxy} {p : Peer} {call : Option AuthArgs} {user pass : List UInt16}
  {sent replies : List UInt8}

def Waits (x : Proxy) (sent replies : List UInt8) : Prop :=
  ∃ y, x.negotiated sent = .err y ∧ y.sent.flatten = replies

theorem Waits.reply (h : x.Waits sent replies) : x.reply sent = replies := by
  obtain ⟨y, hy, rfl⟩ := h
  rw [Proxy.reply, hy]

theorem Runs.write (hruns : x.Runs p) (h : x.Waits sent replies) (pos : ℕ) (bytes : List UInt8) :
    p.write ⟨sent, pos⟩ bytes = .ok ⟨sent ++ bytes, pos⟩ := by
  refine Peer.write_of_none (t := ⟨sent, pos⟩) ?_ bytes
  by_contra hne
  obtain ⟨r, z, hz, -⟩ := hruns.writes sent hne
  obtain ⟨y, hy, -⟩ := h
  cases hy.symm.trans hz

theorem waits_nil (x : Proxy) : x.Waits [] [] := by
  obtain ⟨y, hy, hsent⟩ := recv_of_nil (x := ⟨[], 0, [], x.buf⟩) (n := 2) rfl (by decide) (by decide)
  refine ⟨y, ?_, by rw [hsent]; rfl⟩
  rw [negotiated, negotiate, recvMethods, hy]
  rfl

theorem recvMethods_greeting (enabled : Bool) (rest : List UInt8) :
    ∃ y, recvMethods ⟨greetingRequest enabled ++ rest, 0, [], x.buf⟩ = .ok 1 y ∧
      y.incoming = rest ∧ y.sent = [] ∧
        slice y.buf 0 1 = [if enabled then methodUserPass else methodNoAuth] := by
  have hmethod : ([if enabled then methodUserPass else methodNoAuth] : List UInt8).length =
      (1 : UInt8).toNat := rfl
  obtain ⟨y, hy, hreads, hms⟩ := recvMethods_of_incoming
    (x := ⟨greetingRequest enabled ++ rest, 0, [], x.buf⟩) hmethod (by decide) rfl
  exact ⟨y, hy, hreads.rest rfl, hreads.sent_eq, hms⟩

theorem isSome_of_installed {g : AuthGlobals} (hg : Installed g (pairOf call)) :
    g.enabled = (pairOf call).isSome := by
  cases hpair : pairOf call with
  | none =>
      rw [hpair] at hg
      exact hg
  | some p =>
      rw [hpair] at hg
      exact hg.1

theorem recvRequest_of_nil {y : Exchange} (h : y.incoming = []) :
    ∃ z, recvRequest y = .err z ∧ z.sent = y.sent := by
  obtain ⟨z, hz, hsent⟩ := recv_of_nil h (n := 4) (by decide) (by decide)
  refine ⟨z, ?_, hsent⟩
  rw [recvRequest, hz]
  rfl

/-- The method of the greeting is taken exactly when it is the one that the server wants. -/
theorem waits_greeting (hg : Installed x.auth (pairOf call)) (enabled : Bool) :
    x.Waits (greetingRequest enabled)
      (if (pairOf call).isSome = enabled then
        [0x05, if enabled then methodUserPass else methodNoAuth] else [0x05, 0xff]) := by
  obtain ⟨y, hy, hrest, hsent, hms⟩ := recvMethods_greeting (x := x) enabled []
  rw [List.append_nil] at hy
  rw [Waits, negotiated, negotiate, Reading.bind_of_ok hy, ← isSome_of_installed hg, chooseMethod]
  have hslice : slice y.buf 0 (1 : UInt8).toNat = slice y.buf 0 1 := rfl
  rw [hslice, hms]
  cases hon : x.auth.enabled <;> cases enabled
  · obtain ⟨z, hz, hz'⟩ := recvRequest_of_nil (y := y.send [0x05, 0x00]) hrest
    exact ⟨z, hz, by rw [hz', Exchange.send, hsent]; rfl⟩
  · exact ⟨y.send [0x05, 0xff], rfl, by rw [Exchange.send, hsent]; rfl⟩
  · exact ⟨y.send [0x05, 0xff], rfl, by rw [Exchange.send, hsent]; rfl⟩
  · obtain ⟨z, hz, hz'⟩ := recv_of_nil (x := y.send [0x05, 0x02]) hrest (n := 2) (by decide) (by decide)
    refine ⟨z, ?_, by rw [hz', Exchange.send, hsent]; rfl⟩
    have hauth : doAuthCheck x.stack (y.send [0x05, 0x02]) (CharBuf.zero.memcpy x.auth.user)
        (CharBuf.zero.memcpy x.auth.pass) = .err z := by
      rw [doAuthCheck, hz]
      rfl
    exact congrArg (fun r => Reading.bind r fun _ x => recvRequest x) hauth

theorem pairOf_ne_nil {u q : List UInt8} (h : pairOf call = some (u, q)) : u ≠ [] := by
  obtain ⟨a, -, ha⟩ := Option.bind_eq_some_iff.mp h
  unfold AuthArgs.pair at ha
  split at ha
  case h_1 s _ _ _ =>
    split at ha
    case isTrue => cases ha
    case isFalse hempty =>
      obtain ⟨rfl, rfl⟩ := Prod.mk.inj (Option.some.inj ha)
      rw [Ne, List.take_eq_nil_iff]
      exact fun hnil => hempty (Or.inl (hnil.resolve_left (by decide)))
  case h_2 | h_3 => cases ha

theorem login_eq_of_append {u q l rest : List UInt8} (hl : Login u q l)
    (hu : (Utf8.encode user).length ≤ 255) (hp : (Utf8.encode pass).length ≤ 255)
    (hreq : authRequest user pass = l ++ rest) : (u, q) = (Utf8.encode user, Utf8.encode pass) := by
  have hof : ∀ {a b : List UInt8} {n : UInt8}, UInt8.ofNat a.length = n → a.length ≤ 255 →
      b.length = n.toNat → a.length = b.length := by
    intro a b n hn ha hb
    rw [hb, ← hn, UInt8.toNat_ofNat']
    omega
  obtain ⟨ulen, plen, rfl, hulen, -, hplen⟩ := hl
  obtain ⟨hhead, htail⟩ := List.cons.inj (List.cons.inj hreq).2
  have hbody : Utf8.encode user ++ UInt8.ofNat (Utf8.encode pass).length :: Utf8.encode pass =
      u ++ (plen :: q ++ rest) := htail.trans (List.append_assoc u _ rest)
  obtain ⟨huser, hpass⟩ := List.append_inj hbody (hof hhead hu hulen)
  obtain ⟨hplen', hpass⟩ := List.cons.inj hpass
  have hpass' : Utf8.encode pass ++ [] = q ++ rest := (List.append_nil _).trans hpass
  rw [huser, (List.append_inj hpass' (hof hplen' hp hplen)).1]

theorem chooseMethod_greeting (rest : List UInt8) (hg : Installed x.auth (pairOf call)) {l : List UInt8}
    (hl : LoggedIn l (pairOf call)) :
    ∃ y z, recvMethods ⟨greetingRequest (pairOf call).isSome ++ (l ++ rest), 0, [], x.buf⟩ = .ok 1 y ∧
      chooseMethod x.auth x.stack y 1 = .ok () z ∧ z.incoming = rest ∧
        z.sent = methodReplies (pairOf call) := by
  obtain ⟨y, hy, hrest, hsent, hms⟩ := recvMethods_greeting (x := x) (pairOf call).isSome (l ++ rest)
  have hmem : requiredMethod (pairOf call) ∈
      [if (pairOf call).isSome then methodUserPass else methodNoAuth] := by
    cases pairOf call <;> exact List.mem_singleton.mpr rfl
  have hone : [if (pairOf call).isSome then methodUserPass else methodNoAuth].length =
      (1 : UInt8).toNat := rfl
  obtain ⟨z, hz, hreads⟩ : ∃ z, chooseMethod x.auth x.stack y 1 = .ok () z ∧
      Reads y l (methodReplies (pairOf call)) z :=
    chooseMethod_of_incoming hg hone hms hmem hl hrest
  exact ⟨y, z, hy, hz, hreads.rest hrest, by rw [hreads.sent, hsent, List.nil_append]⟩

theorem waits_auth (hg : Installed x.auth (pairOf call))
    (hu : (Utf8.encode user).length ≤ 255) (hp : (Utf8.encode pass).length ≤ 255)
    (hpair : pairOf call = some (Utf8.encode user, Utf8.encode pass)) :
    x.Waits (greetingRequest true ++ authRequest user pass) [0x05, 0x02, 0x01, 0x00] := by
  have hl : LoggedIn (authRequest user pass) (pairOf call) := by
    rw [hpair]
    exact (login_iff (pairOf_ne_nil hpair) hp).mpr ⟨hu, hp, rfl, rfl⟩
  obtain ⟨y, z, hy, hz, hrest, hsent⟩ := chooseMethod_greeting [] hg hl
  obtain ⟨w, hw, hw'⟩ := recvRequest_of_nil hrest
  rw [hpair, List.append_nil] at hy
  refine ⟨w, ?_, ?_⟩
  · rw [negotiated, negotiate]
    exact (Reading.bind_of_ok hy).trans ((Reading.bind_of_ok hz).trans hw)
  · rw [hw', hsent, hpair]
    rfl

theorem waits_auth_of_ne (hg : Installed x.auth (pairOf call))
    (hu : (Utf8.encode user).length ≤ 255) (hp : (Utf8.encode pass).length ≤ 255)
    {q : List UInt8 × List UInt8} (hpair : pairOf call = some q)
    (hne : q ≠ (Utf8.encode user, Utf8.encode pass)) :
    x.Waits (greetingRequest true ++ authRequest user pass) [0x05, 0x02] ∨
      x.Waits (greetingRequest true ++ authRequest user pass) [0x05, 0x02, 0x01, 0x01] := by
  obtain ⟨y, hy, hrest, hsent, hms⟩ := recvMethods_greeting (x := x) true (authRequest user pass)
  have hon : x.auth.enabled = true := by
    rw [isSome_of_installed hg, hpair]
    rfl
  have hchoose : chooseMethod x.auth x.stack y 1 = doAuthCheck x.stack (y.send [0x05, 0x02])
      (CharBuf.zero.memcpy x.auth.user) (CharBuf.zero.memcpy x.auth.pass) := by
    have hslice : slice y.buf 0 (1 : UInt8).toNat = slice y.buf 0 1 := rfl
    rw [chooseMethod, hslice, hms, hon]
    rfl
  have hneg : x.negotiated (greetingRequest true ++ authRequest user pass) =
      (chooseMethod x.auth x.stack y 1).bind fun _ z => recvRequest z := by
    rw [negotiated, negotiate, Reading.bind_of_ok hy]
  cases hz : chooseMethod x.auth x.stack y 1 with
  | overflow => exact absurd (hchoose.symm.trans hz) (doAuthCheck_ne_overflow _ _)
  | ok a z =>
      obtain ⟨-, l, hl, hreads⟩ := chooseMethod_of_ok hg rfl hms hz
      rw [hpair] at hl
      exact absurd (login_eq_of_append hl hu hp (hrest.symm.trans hreads.incoming)) hne
  | err z =>
      rw [hz] at hneg
      have hsent' : (y.send [0x05, 0x02]).sent = [[0x05, 0x02]] := by
        rw [Exchange.send, hsent]
        rfl
      rcases doAuthCheck_of_err (hchoose.symm.trans hz) with h | h
      · exact Or.inl ⟨z, hneg, by rw [h, hsent']; rfl⟩
      · exact Or.inr ⟨z, hneg, by rw [h, hsent']; rfl⟩

theorem asks_connectRequest {host : String} {port : ℕ} (hhost : usAscii host ≠ [])
    (hlen : (usAscii host).length ≤ 255) (hzero : 0 ∉ usAscii host) (hport : port < 65536) :
    Asks (.connect (.name (usAscii host)) port) (connectRequest host port) := by
  have hofNat : (UInt8.ofNat (usAscii host).length).toNat = (usAscii host).length := by
    rw [UInt8.toNat_ofNat']
    omega
  have haddr := Address.domain (UInt8.ofNat (usAscii host).length) (usAscii host) hofNat.symm
    (by rw [hofNat]; exact List.length_pos_iff.mpr hhost)
  rw [content_append_zero hzero] at haddr
  refine ⟨0x01, socks5AtypDomain, _, _, _, _, rfl, haddr, rfl, rfl, ?_⟩
  have hhi : port >>> 8 &&& 0xFF = port / 256 := by
    rw [Nat.shiftRight_eq_div_pow, show 0xFF = 2 ^ 8 - 1 from rfl, Nat.and_two_pow_sub_one_eq_mod]
    omega
  have hlo : port &&& 0xFF = port % 256 := by
    rw [show 0xFF = 2 ^ 8 - 1 from rfl, Nat.and_two_pow_sub_one_eq_mod]
  rw [hhi, hlo, UInt8.toNat_ofNat', UInt8.toNat_ofNat']
  omega

/-- The whole handshake of the test, with whatever comes behind it. -/
theorem negotiated_request (hg : Installed x.auth (pairOf call)) {l : List UInt8}
    (hl : LoggedIn l (pairOf call)) (rest : List UInt8) :
    ∃ y, x.negotiated (greetingRequest (pairOf call).isSome ++ l ++
        connectRequest testHost testPort ++ rest) = .ok testRequest y ∧
      y.incoming = rest ∧ y.sent = methodReplies (pairOf call) := by
  have hasks : Asks testRequest (connectRequest testHost testPort) :=
    asks_connectRequest (by decide) (by decide) (by decide) (by decide)
  obtain ⟨y, z, hy, hz, hrest, hsent⟩ :=
    chooseMethod_greeting (connectRequest testHost testPort ++ rest) hg hl
  obtain ⟨w, hw, hreads⟩ := recvRequest_of_incoming hasks hrest
  refine ⟨w, ?_, hreads.rest hrest, hreads.sent_eq.trans hsent⟩
  rw [negotiated, negotiate, List.append_assoc, List.append_assoc]
  exact (Reading.bind_of_ok hy).trans ((Reading.bind_of_ok hz).trans hw)

/-! ### What the test makes of it -/

theorem sends_serve_connect (o : Outcomes) (host : TargetHost) (port : ℕ) :
    sends (serve o (.connect host port)) =
      if o.connCount < maxConcurrentConns then
        [zeroReply (if o.connector then 0x00 else 0x04)]
      else [] := by
  rw [serve]
  by_cases hquota : o.connCount < maxConcurrentConns
  · rw [if_neg (Nat.not_le.mpr hquota), if_pos hquota]
    cases o.connector with
    | false => rfl
    | true => exact congrArg (zeroReply 0x00 :: ·) handoffToWorker_answer.1
  · rw [if_pos (Nat.le_of_not_lt hquota), if_neg hquota]
    rfl

theorem connected_of_register {o : Outcomes} {host : TargetHost} {port : ℕ}
    (h : .register ∈ serve o (.connect host port)) :
    o.connCount < maxConcurrentConns ∧ o.connector = true := by
  rw [serve] at h
  by_cases hquota : o.connCount < maxConcurrentConns
  · refine ⟨hquota, ?_⟩
    by_contra hno
    rw [if_neg (Nat.not_le.mpr hquota), if_neg hno] at h
    simp at h
  · rw [if_pos (Nat.le_of_not_lt hquota)] at h
    simp at h

/-- The marks, and what they come to. -/
structure Shows (r : TestResult) (expected : List (StepKind × Bool)) : Prop where
  marks : r.marks = expected
  overallPass : r.overallPass = expected.all Prod.snd

def passed (kinds : List StepKind) (steps : List TestStep) : Prop :=
  steps.map (fun s => (s.kind, s.pass)) = kinds.map fun k => (k, true)

theorem passed_append {kinds : List StepKind} {steps : List TestStep} (h : passed kinds steps)
    (kind : StepKind) (detail : String) :
    passed (kinds ++ [kind]) (steps ++ [⟨kind, true, detail⟩]) := by
  rw [passed, List.map_append, h, List.map_append]
  rfl

variable {kinds : List StepKind} {steps : List TestStep}

theorem shows_failed (h : passed kinds steps) (kind : StepKind) (detail : String) :
    Shows (failed steps kind detail) (kinds.map (fun k => (k, true)) ++ [(kind, false)]) where
  marks := by
    rw [TestResult.marks, failed, List.map_append, h]
    rfl
  overallPass := by simp [failed]

/-- The connection has its target, and `front` is what the server has replied. -/
structure Connected (x : Proxy) (user pass : List UInt16) (front : List UInt8) : Prop where
  gaveUp : x.GaveUp (testHandshake user pass) → .register ∉ serve x.o testRequest
  reply : ∀ rest, x.reply (testHandshake user pass ++ rest) =
    front ++ if .register ∈ serve x.o testRequest then x.target rest else []
  length : front.length = (lastTalk user pass).pos

theorem dataStep_shows {front : List UInt8} (hruns : x.Runs p) (hconn : Connected x user pass front)
    (h : passed kinds steps) :
    Shows (dataStep p ⟨testHandshake user pass, (lastTalk user pass).pos⟩ steps)
      (kinds.map (fun k => (k, true)) ++ [(.data, decide (x.Answers p user pass))]) := by
  have havail : p.available (lastTalk user pass) =
      if .register ∈ serve x.o testRequest then x.target http else [] := by
    have hwritten : (lastTalk user pass).written = testHandshake user pass ++ http := rfl
    rw [Peer.available, hruns.reply, hwritten, hconn.reply, ← hconn.length, List.drop_left]
  have hfail : ∀ detail, ¬x.Answers p user pass → Shows (failed steps .data detail)
      (kinds.map (fun k => (k, true)) ++ [(.data, decide (x.Answers p user pass))]) := by
    intro detail hno
    rw [decide_eq_false hno]
    exact shows_failed h .data detail
  rw [dataStep]
  cases hwrite : p.writeError (testHandshake user pass) with
  | some text =>
      have hgone := hconn.gaveUp (hruns.writes _ (by rw [hwrite]; rintro ⟨⟩))
      rw [Peer.write, hwrite]
      exact hfail text fun hans => hgone hans.1
  | none =>
      rw [Peer.write_of_none (t := ⟨testHandshake user pass, (lastTalk user pass).pos⟩) hwrite]
      have htalk : (⟨testHandshake user pass ++ http, (lastTalk user pass).pos⟩ : Talk) =
        lastTalk user pass := rfl
      dsimp only
      rw [htalk, Peer.read]
      by_cases hempty : p.available (lastTalk user pass) = []
      · have hno : ¬x.Answers p user pass := by
          rintro ⟨hreg, hhead⟩
          rw [havail, if_pos hreg] at hempty
          rw [hempty, List.take_nil] at hhead
          exact absurd (List.prefix_nil.mp hhead) (by decide)
        rw [if_pos hempty]
        cases p.readError (lastTalk user pass).written with
        | none => exact hfail _ hno
        | some text => exact hfail _ hno
      · have hreg : .register ∈ serve x.o testRequest := by
          by_contra hno
          exact hempty (havail.trans (if_neg hno))
        rw [if_pos hreg] at havail
        rw [if_neg hempty, havail]
        dsimp only
        by_cases hhead : "HTTP/".toList <+:
            asciiChars ((x.target http).take (p.readSize (lastTalk user pass) 4096))
        · have hans : x.Answers p user pass := ⟨hreg, hhead⟩
          rw [if_pos hhead, decide_eq_true hans]
          exact ⟨passed_append h .data _ |>.trans (List.map_append ..), by simp⟩
        · rw [if_neg hhead]
          exact hfail _ fun hans => hhead hans.2

theorem zeroReply_cells (rep : UInt8) : zeroReply rep = [0x05, rep, 0, 1] ++ [0, 0, 0, 0, 0, 0] := rfl

theorem connectStep_shows (hg : Installed x.auth (pairOf call)) (hruns : x.Runs p)
    {l : List UInt8} (front : List UInt8)
    (hmode : (pairOf call).isSome = authEnabled user pass) (hl : LoggedIn l (pairOf call))
    (hwhole : testHandshake user pass =
      greetingRequest (authEnabled user pass) ++ l ++ connectRequest testHost testPort)
    (hfront : (methodReplies (pairOf call)).flatten = front)
    (hlen : front.length + 10 = (lastTalk user pass).pos)
    (hwaits : x.Waits (greetingRequest (authEnabled user pass) ++ l) front) (h : passed kinds steps) :
    Shows (connectStep p ⟨greetingRequest (authEnabled user pass) ++ l, front.length⟩ steps)
      (kinds.map (fun k => (k, true)) ++ tunnelMarks x.o (decide (x.Answers p user pass))) := by
  have hneg : ∀ rest, ∃ y, x.negotiated (testHandshake user pass ++ rest) = .ok testRequest y ∧
      y.incoming = rest ∧ y.sent.flatten = front := by
    intro rest
    obtain ⟨y, hy, hrest, hsent⟩ := negotiated_request hg hl rest
    rw [hmode, ← hwhole] at hy
    exact ⟨y, hy, hrest, by rw [hsent, hfront]⟩
  have hreply : ∀ rest, x.reply (testHandshake user pass ++ rest) =
      front ++ (sends (serve x.o testRequest)).flatten ++
        if .register ∈ serve x.o testRequest then x.target rest else [] := by
    intro rest
    obtain ⟨y, hy, hrest, hsent⟩ := hneg rest
    rw [reply, hy]
    dsimp only
    rw [hsent, hrest]
  have hgaveUp : x.GaveUp (testHandshake user pass) → .register ∉ serve x.o testRequest := by
    rintro ⟨r, z, hz, hnot⟩
    obtain ⟨y, hy, -⟩ := hneg []
    rw [List.append_nil, hz] at hy
    cases hy
    exact hnot
  have havail : p.available ⟨testHandshake user pass, front.length⟩ =
      (sends (serve x.o testRequest)).flatten ++
        if .register ∈ serve x.o testRequest then x.target [] else [] := by
    have hnil := hreply []
    rw [List.append_nil, List.append_assoc] at hnil
    rw [Peer.available, hruns.reply, hnil, List.drop_left]
  rw [connectStep, hruns.write hwaits, ← hwhole]
  dsimp only
  have hsends := sends_serve_connect x.o (.name (usAscii testHost)) testPort
  by_cases hquota : x.o.connCount < maxConcurrentConns
  · rw [if_pos hquota] at hsends
    have hcells : p.available ⟨testHandshake user pass, front.length⟩ =
        [0x05, if x.o.connector then 0x00 else 0x04, 0, 1] ++ ([0, 0, 0, 0, 0, 0] ++
          if .register ∈ serve x.o testRequest then x.target [] else []) := by
      rw [havail, testRequest, hsends, zeroReply_cells]
      simp
    have hheader : p.readFully ⟨testHandshake user pass, front.length⟩ 4 =
        .ok ([0x05, if x.o.connector then 0x00 else 0x04, 0, 1],
          ⟨testHandshake user pass, front.length + 4⟩) := Peer.readFully_of_available hcells
    have hbehind := Peer.available_advance hcells
    rw [hheader]
    dsimp only
    cases hconnector : x.o.connector with
    | false =>
        have hmarks : tunnelMarks x.o (decide (x.Answers p user pass)) = [(.connect, false)] := by
          simp [tunnelMarks, hconnector]
        rw [hmarks]
        exact shows_failed h .connect _
    | true =>
        have hmarks : tunnelMarks x.o (decide (x.Answers p user pass)) =
            [(.connect, true), (.data, decide (x.Answers p user pass))] := by
          simp [tunnelMarks, hconnector, hquota]
        have hbound : p.readBound ⟨testHandshake user pass, front.length + 4⟩ 0x01 =
            .ok ⟨testHandshake user pass, front.length + 4 + 6⟩ := Peer.readBound_v4 hbehind rfl
        have hpos : front.length + 4 + 6 = (lastTalk user pass).pos := hlen
        rw [hpos] at hbound
        have hconn : Connected x user pass (front ++ zeroReply 0x00) := by
          refine ⟨hgaveUp, fun rest => ?_, ?_⟩
          · rw [hreply, testRequest, hsends, hconnector]
            simp
          · rw [List.length_append, ← hlen]
            rfl
        have hdata := dataStep_shows hruns hconn (passed_append h .connect
          (testHost ++ ":" ++ toString testPort))
        rw [List.map_append, List.append_assoc] at hdata
        rw [hmarks]
        have hrep : connectReplyRep [0x05, if true then 0x00 else 0x04, 0, 1] = 0 := rfl
        rw [hrep, if_neg (by decide), if_neg (by decide)]
        have hatyp : [0x05, if true then 0x00 else 0x04, 0, 1].getD 3 0 = (0x01 : UInt8) := rfl
        rw [hatyp, hbound]
        exact hdata
  · rw [if_neg hquota] at hsends
    have hnone : p.available ⟨testHandshake user pass, front.length⟩ = [] := by
      rw [havail, testRequest, hsends, if_neg fun hreg => hquota (connected_of_register hreg).1]
      rfl
    have hmarks : tunnelMarks x.o (decide (x.Answers p user pass)) = [(.connect, false)] :=
      if_neg fun hboth => hquota hboth.1
    obtain ⟨text, htext⟩ := Peer.readFully_of_short (p := p)
      (t := ⟨testHandshake user pass, front.length⟩) (n := 4) (by rw [hnone]; decide)
    rw [htext, hmarks]
    exact shows_failed h .connect text

theorem authStep_shows (hg : Installed x.auth (pairOf call)) (hruns : x.Runs p)
    (hu : (Utf8.encode user).length ≤ 255) (hp : (Utf8.encode pass).length ≤ 255)
    {q : List UInt8 × List UInt8} (hpair : pairOf call = some q)
    (henabled : authEnabled user pass = true) (h : passed kinds steps) :
    Shows (authStep p ⟨greetingRequest true, 2⟩ steps user pass)
      (kinds.map (fun k => (k, true)) ++ if q = (Utf8.encode user, Utf8.encode pass)
        then (.auth, true) :: tunnelMarks x.o (decide (x.Answers p user pass))
        else [(.auth, false)]) := by
  have hgreeting : x.Waits (greetingRequest true) [0x05, 0x02] := by
    have hwaits := waits_greeting hg true
    rwa [hpair, if_pos (show (some q).isSome = true from rfl)] at hwaits
  have havail : ∀ replies, x.Waits (greetingRequest true ++ authRequest user pass) replies →
      p.available ⟨greetingRequest true ++ authRequest user pass, 2⟩ = replies.drop 2 := by
    intro replies hwaits
    rw [Peer.available, hruns.reply, hwaits.reply]
  rw [authStep, hruns.write hgreeting]
  dsimp only
  by_cases heq : q = (Utf8.encode user, Utf8.encode pass)
  · subst heq
    have hwaits := waits_auth hg hu hp hpair
    have hread : p.readFully ⟨greetingRequest true ++ authRequest user pass, 2⟩ 2 =
        .ok ([0x01, 0x00], ⟨greetingRequest true ++ authRequest user pass, 4⟩) :=
      Peer.readFully_of_available_eq (l := [0x01, 0x00]) (havail _ hwaits)
    have hl : LoggedIn (authRequest user pass) (pairOf call) := by
      rw [hpair]
      exact (login_iff (pairOf_ne_nil hpair) hp).mpr ⟨hu, hp, rfl, rfl⟩
    have hwhole : testHandshake user pass = greetingRequest (authEnabled user pass) ++
        authRequest user pass ++ connectRequest testHost testPort := by
      rw [testHandshake, henabled]
      rfl
    have hconnect := connectStep_shows hg hruns [0x05, 0x02, 0x01, 0x00]
      (by rw [hpair, henabled]; rfl) hl hwhole (by rw [hpair]; rfl) (by rw [lastTalk, henabled]; rfl)
      (by rwa [henabled]) (passed_append h .auth "credentials accepted")
    rw [henabled, List.map_append, List.append_assoc] at hconnect
    rw [hread, if_pos rfl]
    exact hconnect
  · rw [if_neg heq]
    rcases waits_auth_of_ne hg hu hp hpair heq with hwaits | hwaits
    · obtain ⟨text, htext⟩ := Peer.readFully_of_short (p := p)
        (t := ⟨greetingRequest true ++ authRequest user pass, 2⟩) (n := 2)
        (by rw [havail _ hwaits]; decide)
      rw [htext]
      exact shows_failed h .auth text
    · have hread : p.readFully ⟨greetingRequest true ++ authRequest user pass, 2⟩ 2 =
          .ok ([0x01, 0x01], ⟨greetingRequest true ++ authRequest user pass, 4⟩) :=
        Peer.readFully_of_available_eq (l := [0x01, 0x01]) (havail _ hwaits)
      rw [hread]
      exact shows_failed h .auth _

theorem greetingStep_shows (hg : Installed x.auth (pairOf call)) (hruns : x.Runs p)
    (hu : (Utf8.encode user).length ≤ 255) (hp : (Utf8.encode pass).length ≤ 255)
    (detail : String) :
    Shows (greetingStep p ⟨[], 0⟩ [⟨.connectSocket, true, detail⟩] user pass)
      (diagnosis (pairOf call) x.o (decide (x.Answers p user pass)) user pass) := by
  have hstart : passed [.connectSocket] [⟨.connectSocket, true, detail⟩] := rfl
  have hwaits := waits_greeting hg (authEnabled user pass)
  have hread : ∀ m, x.Waits (greetingRequest (authEnabled user pass)) [0x05, m] →
      p.readFully ⟨greetingRequest (authEnabled user pass), 0⟩ 2 =
        .ok ([0x05, m], ⟨greetingRequest (authEnabled user pass), 2⟩) := by
    intro m hm
    refine Peer.readFully_of_available_eq (l := [0x05, m]) ?_
    rw [Peer.available, hruns.reply, hm.reply]
    rfl
  rw [greetingStep, hruns.write (waits_nil x), List.nil_append]
  dsimp only
  by_cases hmode : (pairOf call).isSome = authEnabled user pass
  · rw [if_pos hmode] at hwaits
    rw [hread _ hwaits, diagnosis, if_pos hmode]
    dsimp only
    have hvalid : ∀ m, validMethodReply [0x05, m] m = true := by
      intro m
      simp [validMethodReply]
    rw [hvalid, if_pos rfl]
    cases hpair : pairOf call with
    | none =>
        have hoff : authEnabled user pass = false := by rw [← hmode, hpair]; rfl
        rw [hoff] at hwaits ⊢
        have hwhole : testHandshake user pass = greetingRequest (authEnabled user pass) ++ [] ++
            connectRequest testHost testPort := by
          rw [testHandshake, hoff]
          rfl
        have hconnect := connectStep_shows hg hruns [0x05, 0x00] hmode
          (by rw [hpair]; rfl) hwhole (by rw [hpair]; rfl) (by rw [lastTalk, hoff]; rfl)
          (by rw [hoff, List.append_nil]; exact hwaits)
          (passed_append hstart .greeting "no-auth accepted")
        rw [hoff] at hconnect
        exact hconnect
    | some q =>
        have hon : authEnabled user pass = true := by rw [← hmode, hpair]; rfl
        have hauth := authStep_shows hg hruns hu hp hpair hon
          (passed_append hstart .greeting "auth required")
        rw [hon]
        exact hauth
  · rw [if_neg hmode] at hwaits
    rw [hread _ hwaits, diagnosis, if_neg hmode]
    dsimp only
    have hinvalid : validMethodReply [0x05, 0xff]
        (if authEnabled user pass then methodUserPass else methodNoAuth) = false := by
      cases authEnabled user pass <;> decide
    rw [hinvalid]
    exact shows_failed hstart .greeting _

end Proxy

open Proxy

variable {x : Proxy} {p : Peer} {call : Option AuthArgs} {user pass : List UInt16}

/-- The credentials `a` and `b` have been installed, and the target answers. -/
def loopback : Proxy where
  auth := authAfter [nativeSetSocks5Auth (some [0x61]) (some [0x62])]
  stack := ⟨fun _ => 0, fun _ => 0⟩
  buf := fun _ => 0
  o := .allGood
  target := fun _ => usAscii "HTTP/1.0 200 OK"

/-- No call of the socket fails, and a `read` returns at most `64` bytes. -/
def loopbackPeer : Peer := ⟨none, loopback.reply, fun _ => none, fun _ => none, fun _ => 64⟩

/-- The same texts on both sides, and a password beyond the basic plane. -/
example : diagnosis (pairOf (some (nativeSetSocks5Auth (some [0x61]) (some [0xD83D, 0xDE00]))))
    .allGood true [0x61] [0xD83D, 0xDE00] =
    [(.connectSocket, true), (.greeting, true), (.auth, false)] := by decide

end FiveGProxy
