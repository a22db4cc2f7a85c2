import FiveGProxy.Handshake.Credentials

/-!
# The self-test

`SelfTest.run` connects to the proxy of its own device as a client of the protocol, and marks each
step that it comes to. `Socks5ClientProtocol` has the packets and the checks of the replies. The
other side is a `Peer`: what it has sent after it was sent something, and how the calls of the socket
fail. How much of what has arrived a `read` returns is left open.
-/

namespace FiveGProxy

/-! ### The packets -/

/-- `toByteArray(Charsets.US_ASCII)`. -/
def usAscii (s : String) : List UInt8 :=
  s.toList.map fun c => if c.toNat < 128 then UInt8.ofNat c.toNat else 0x3F

/-- `String(buf, Charsets.US_ASCII)`. -/
def asciiChars (buf : List UInt8) : List Char :=
  buf.map fun b => if b.toNat < 128 then Char.ofNat b.toNat else Char.ofNat 0xFFFD

namespace Socks5ClientProtocol

def methodNoAuth : UInt8 := 0x00

def methodUserPass : UInt8 := 0x02

def repSuccess : ℤ := 0x00

def greetingRequest (authEnabled : Bool) : List UInt8 :=
  [0x05, 0x01, if authEnabled then methodUserPass else methodNoAuth]

def validMethodReply (resp : List UInt8) (expectedMethod : UInt8) : Bool :=
  decide (2 ≤ resp.length) && decide (resp.getD 0 0 = 0x05) && decide (resp.getD 1 0 = expectedMethod)

def validAuthReply (resp : List UInt8) : Bool :=
  decide (2 ≤ resp.length) && decide (resp.getD 0 0 = 0x01) && decide (resp.getD 1 0 = 0x00)

def connectRequest (host : String) (port : ℕ) : List UInt8 :=
  [0x05, 0x01, 0x00, 0x03, UInt8.ofNat (usAscii host).length] ++ usAscii host ++
    [UInt8.ofNat (port >>> 8 &&& 0xFF), UInt8.ofNat (port &&& 0xFF)]

def connectReplyRep (header : List UInt8) : ℤ :=
  if 4 ≤ header.length ∧ header.getD 0 0 = 0x05 then (header.getD 1 0).toNat else -1

end Socks5ClientProtocol

/-! ### The socket -/

/-- What the test has written, and how many bytes it has read. -/
structure Talk where
  written : List UInt8
  pos : ℕ

structure Peer where
  /-- The text of the exception of `connect`. -/
  connectError : Option String
  /-- What is sent back when this has been written. -/
  reply : List UInt8 → List UInt8
  /-- The text of the exception that the next `write` throws. -/
  writeError : List UInt8 → Option String
  /-- The text of the exception when there is nothing more to read; `none` is the end of the stream. -/
  readError : List UInt8 → Option String
  /-- How much of what has arrived a `read` returns at most. -/
  chunk : Talk → ℕ

/-- What `input.read` comes to. -/
inductive ReadResult
  | bytes (buf : List UInt8) (t : Talk)
  | eof
  | threw (text : String)

namespace Peer

def available (p : Peer) (t : Talk) : List UInt8 := (p.reply t.written).drop t.pos

/-- `output.write`. -/
def write (p : Peer) (t : Talk) (bytes : List UInt8) : Except String Talk :=
  match p.writeError t.written with
  | some text => .error text
  | none => .ok { t with written := t.written ++ bytes }

/-- How many bytes a `read` of at most `len` returns. -/
def readSize (p : Peer) (t : Talk) (len : ℕ) : ℕ :=
  min len (min (p.available t).length (max 1 (p.chunk t)))

/-- `input.read(buf, off, len)`. -/
def read (p : Peer) (t : Talk) (len : ℕ) : ReadResult :=
  if p.available t = [] then
    match p.readError t.written with
    | some text => .threw text
    | none => .eof
  else .bytes ((p.available t).take (p.readSize t len)) { t with pos := t.pos + p.readSize t len }

/-- The loop of `readFully`, with `missing` bytes to go. Each `read` returns a byte at least. -/
def readLoop (p : Peer) : ℕ → Talk → ℕ → List UInt8 → Except String (List UInt8 × Talk)
  | 0, t, _, buf => .ok (buf, t)
  | fuel + 1, t, missing, buf =>
      if missing = 0 then .ok (buf, t)
      else
        match p.read t missing with
        | .bytes more t' => p.readLoop fuel t' (missing - more.length) (buf ++ more)
        | .eof => .error "EOFException: connection closed"
        | .threw text => .error text

def readFully (p : Peer) (t : Talk) (n : ℕ) : Except String (List UInt8 × Talk) := p.readLoop n t n []

def readBound (p : Peer) (t : Talk) (atyp : UInt8) : Except String Talk :=
  (if atyp = 0x01 then .ok (4, t)
    else if atyp = 0x04 then .ok (16, t)
    else if atyp = 0x03 then (p.readFully t 1).map fun r => ((r.1.getD 0 0).toNat, r.2)
    else .ok (0, t)).bind fun r =>
      (p.readFully r.2 r.1).bind fun r => (p.readFully r.2 2).map Prod.snd

end Peer

/-! ### The steps -/

inductive StepKind
  | connectSocket
  | greeting
  | auth
  | connect
  | data
  deriving DecidableEq

structure TestStep where
  kind : StepKind
  pass : Bool
  detail : String

structure TestResult where
  steps : List TestStep
  overallPass : Bool

namespace SelfTest

open Socks5ClientProtocol

def testHost : String := "example.com"

def testPort : ℕ := 80

def repName (rep : ℤ) : String :=
  if rep = 0x01 then "general failure"
  else if rep = 0x02 then "connection not allowed"
  else if rep = 0x03 then "network unreachable"
  else if rep = 0x04 then "host unreachable"
  else if rep = 0x05 then "connection refused"
  else if rep = 0x06 then "TTL expired"
  else if rep = 0x07 then "command not supported"
  else if rep = 0x08 then "address type not supported"
  else "unknown"

def http : List UInt8 :=
  usAscii ("GET / HTTP/1.0\r\nHost: " ++ testHost ++ "\r\nConnection: close\r\n\r\n")

def failed (steps : List TestStep) (kind : StepKind) (detail : String) : TestResult :=
  ⟨steps ++ [⟨kind, false, detail⟩], false⟩

def dataStep (p : Peer) (t : Talk) (steps : List TestStep) : TestResult :=
  match p.write t http with
  | .error text => failed steps .data text
  | .ok t =>
      match p.read t 4096 with
      | .threw text => failed steps .data text
      | .eof => failed steps .data "0 bytes received (connection closed with no data)"
      | .bytes buf _ =>
          if "HTTP/".toList <+: asciiChars buf then
            ⟨steps ++ [⟨.data, true, toString buf.length ++ " bytes received"⟩], true⟩
          else failed steps .data (toString buf.length ++ " bytes, unexpected: " ++
            String.ofList ((asciiChars buf).take 60))

def connectStep (p : Peer) (t : Talk) (steps : List TestStep) : TestResult :=
  match p.write t (connectRequest testHost testPort) with
  -- the `catch` around all steps
  | .error text => failed steps .data text
  | .ok t =>
      match p.readFully t 4 with
      | .error text => failed steps .connect text
      | .ok (header, t) =>
          let rep := connectReplyRep header
          if rep < 0 then failed steps .connect ("bad VER " ++ toString (header.getD 0 0).toNat)
          else if rep ≠ repSuccess then
            failed steps .connect ("REP=" ++ toString rep ++ " (" ++ repName rep ++ ")")
          else
            match p.readBound t (header.getD 3 0) with
            | .error text => failed steps .connect text
            | .ok t => dataStep p t
                (steps ++ [⟨.connect, true, testHost ++ ":" ++ toString testPort⟩])

def authStep (p : Peer) (t : Talk) (steps : List TestStep) (authUser authPass : List UInt16) :
    TestResult :=
  match p.write t (authRequest authUser authPass) with
  | .error text => failed steps .data text
  | .ok t =>
      match p.readFully t 2 with
      | .error text => failed steps .auth text
      | .ok (resp, t) =>
          if validAuthReply resp then
            connectStep p t (steps ++ [⟨.auth, true, "credentials accepted"⟩])
          else failed steps .auth ("auth rejected (01 " ++ toString (resp.getD 1 0).toNat ++ ")")

def authEnabled (authUser authPass : List UInt16) : Bool :=
  decide (authUser ≠ []) && decide (authPass ≠ [])

def greetingStep (p : Peer) (t : Talk) (steps : List TestStep) (authUser authPass : List UInt16) :
    TestResult :=
  let enabled := authEnabled authUser authPass
  let method := if enabled then methodUserPass else methodNoAuth
  match p.write t (greetingRequest enabled) with
  | .error text => failed steps .data text
  | .ok t =>
      match p.readFully t 2 with
      | .error text => failed steps .greeting text
      | .ok (resp, t) =>
          if validMethodReply resp method then
            if enabled then
              authStep p t (steps ++ [⟨.greeting, true, "auth required"⟩]) authUser authPass
            else connectStep p t (steps ++ [⟨.greeting, true, "no-auth accepted"⟩])
          else failed steps .greeting ("server chose method " ++ toString (resp.getD 1 0).toNat ++
            ", expected " ++ toString method.toNat)

def run (p : Peer) (port : ℕ) (authUser authPass : List UInt16) : TestResult :=
  match p.connectError with
  | some text => failed [] .connectSocket text
  | none => greetingStep p ⟨[], 0⟩ [⟨.connectSocket, true, "127.0.0.1:" ++ toString port⟩] authUser
      authPass

end SelfTest

/-! ### Reading -/

namespace Peer

variable {p : Peer} {t : Talk} {l l' : List UInt8}

theorem write_of_none (h : p.writeError t.written = none) (bytes : List UInt8) :
    p.write t bytes = .ok { t with written := t.written ++ bytes } := by
  rw [write, h]

theorem available_advance (h : p.available t = l ++ l') :
    p.available { t with pos := t.pos + l.length } = l' := by
  rw [available, ← List.drop_drop, ← available, h, List.drop_left]

/-- A `read` returns a part of what has arrived, and not nothing. -/
theorem read_of_available {len : ℕ} (hlen : 0 < len) (hne : p.available t ≠ []) :
    ∃ more rest, p.available t = more ++ rest ∧ 0 < more.length ∧ more.length ≤ len ∧
      p.read t len = .bytes more { t with pos := t.pos + more.length } := by
  have hpos : 0 < p.readSize t len := by
    have havail := List.length_pos_iff.mpr hne
    rw [readSize]
    omega
  have htake : ((p.available t).take (p.readSize t len)).length = p.readSize t len := by
    rw [List.length_take, readSize]
    omega
  refine ⟨(p.available t).take (p.readSize t len), (p.available t).drop (p.readSize t len),
    ?_, ?_, ?_, ?_⟩
  · exact (List.take_append_drop _ _).symm
  · rwa [htake]
  · rw [htake]
    exact Nat.min_le_left _ _
  · rw [read, if_neg hne, htake]

theorem readLoop_of_available {fuel : ℕ} (hfuel : l.length ≤ fuel) (h : p.available t = l ++ l')
    (buf : List UInt8) :
    p.readLoop fuel t l.length buf = .ok (buf ++ l, { t with pos := t.pos + l.length }) := by
  induction fuel generalizing t l buf with
  | zero =>
      obtain rfl := List.eq_nil_of_length_eq_zero (Nat.le_zero.mp hfuel)
      rw [readLoop, List.append_nil]
      rfl
  | succ fuel ih =>
      rw [readLoop]
      by_cases hzero : l.length = 0
      · rw [if_pos hzero, hzero, List.eq_nil_of_length_eq_zero hzero, List.append_nil]
        rfl
      · have hne : p.available t ≠ [] := by
          rw [h]
          exact List.append_ne_nil_of_left_ne_nil (List.ne_nil_of_length_pos (by omega)) _
        obtain ⟨more, rest, hsplit, hpos, hle, hread⟩ :=
          read_of_available (by omega : 0 < l.length) hne
        obtain ⟨l₂, rfl, rfl⟩ : ∃ l₂, l = more ++ l₂ ∧ rest = l₂ ++ l' := by
          obtain ⟨a, ha, hb⟩ | ⟨a, ha, hb⟩ := List.append_eq_append_iff.mp (hsplit.symm.trans h)
          · exact ⟨a, ha, hb⟩
          · obtain rfl : a = [] := by
              rw [ha, List.length_append] at hle
              exact List.eq_nil_of_length_eq_zero (by omega)
            exact ⟨[], by simpa using ha.symm, hb.symm⟩
        have hmissing : (more ++ l₂).length - more.length = l₂.length := by
          rw [List.length_append, Nat.add_sub_cancel_left]
        rw [List.length_append] at hfuel
        rw [if_neg hzero, hread]
        dsimp only
        rw [hmissing, ih (by omega) (available_advance hsplit) (buf ++ more), List.append_assoc,
          List.length_append, Nat.add_assoc]

theorem readFully_of_available (h : p.available t = l ++ l') :
    p.readFully t l.length = .ok (l, { t with pos := t.pos + l.length }) := by
  rw [readFully, readLoop_of_available le_rfl h, List.nil_append]

theorem readFully_of_available_eq (h : p.available t = l) :
    p.readFully t l.length = .ok (l, { t with pos := t.pos + l.length }) :=
  readFully_of_available (h.trans (List.append_nil l).symm)

theorem readLoop_of_short {fuel missing : ℕ} (hfuel : missing ≤ fuel)
    (h : (p.available t).length < missing) (buf : List UInt8) :
    ∃ text, p.readLoop fuel t missing buf = .error text := by
  induction fuel generalizing t missing buf with
  | zero => omega
  | succ fuel ih =>
      rw [readLoop, if_neg (by omega)]
      by_cases hne : p.available t = []
      · rw [read, if_pos hne]
        cases p.readError t.written with
        | none => exact ⟨_, rfl⟩
        | some text => exact ⟨_, rfl⟩
      · obtain ⟨more, rest, hsplit, hpos, hle, hread⟩ :=
          read_of_available (by omega : 0 < missing) hne
        rw [hread]
        refine ih (by omega) ?_ _
        rw [available_advance hsplit]
        rw [hsplit, List.length_append] at h
        omega

theorem readFully_of_short {n : ℕ} (h : (p.available t).length < n) :
    ∃ text, p.readFully t n = .error text := readLoop_of_short le_rfl h []

theorem readBound_v4 (h : p.available t = l ++ l') (hl : l.length = 6) :
    p.readBound t 0x01 = .ok { t with pos := t.pos + 6 } := by
  have hsplit : p.available t = l.take 4 ++ (l.drop 4 ++ l') := by
    rw [h, ← List.append_assoc, List.take_append_drop]
  have htake : (l.take 4).length = 4 := by
    rw [List.length_take]
    omega
  have hdrop : (l.drop 4).length = 2 := by
    rw [List.length_drop]
    omega
  have hfirst := readFully_of_available hsplit
  have hsecond := readFully_of_available (available_advance hsplit)
  rw [htake] at hfirst hsecond
  rw [hdrop] at hsecond
  have haddr : p.readBound t 0x01 =
      (p.readFully t 4).bind fun r => (p.readFully r.2 2).map Prod.snd := rfl
  rw [haddr, hfirst]
  exact congrArg (Except.map Prod.snd) hsecond

end Peer

end FiveGProxy
