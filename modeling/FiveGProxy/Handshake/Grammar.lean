import FiveGProxy.Handshake.Setup

/-!
# The grammar of a handshake

A request is served when the stream begins with a handshake: the greeting, the login that the
credentials ask for, and the request. Nothing behind it has been received then.
-/

namespace FiveGProxy

open CString Memory Ledger

variable {x y z : Exchange} {l l' : List UInt8} {g : AuthGlobals} {stack : AuthStack}

/-! ### The greeting -/

theorem recvMethods_of_ok {n : UInt8} (h : recvMethods x = .ok n y) :
    ∃ ms, ms.length = n.toNat ∧ 1 ≤ n.toNat ∧ Reads x (0x05 :: n :: ms) [] y ∧
      slice y.buf 0 n.toNat = ms := by
  obtain ⟨⟨⟩, z, hz, h⟩ := Reading.bind_eq_ok.mp h
  obtain ⟨l, -, hreads, rfl⟩ := recv_of_ok hz
  dsimp only at h
  split at h
  case isTrue => cases h
  case isFalse hver =>
    split at h
    case isTrue => cases h
    case isFalse hn =>
      obtain ⟨⟨⟩, z', hz', h⟩ := Reading.bind_eq_ok.mp h
      cases h
      obtain ⟨ms, hlen, hms, hslice⟩ := recv_of_ok hz'
      have hhead : slice z.buf 0 2 = [0x05, z.buf 1] := by
        rw [← Decidable.not_not.mp hver]
        rfl
      rw [hhead] at hreads
      exact ⟨ms, hlen, by omega, hreads.trans hms, hslice⟩

theorem recvMethods_of_incoming {n : UInt8} {ms : List UInt8} (hlen : ms.length = n.toNat)
    (hn : 1 ≤ n.toNat) (hx : x.incoming = 0x05 :: n :: ms ++ l') :
    ∃ y, recvMethods x = .ok n y ∧ Reads x (0x05 :: n :: ms) [] y ∧ slice y.buf 0 n.toNat = ms := by
  obtain ⟨y, hy, hreads, hslice⟩ := recv_of_incoming (x := x) (n := 2) (l := [0x05, n])
    (by decide) rfl (hx.trans (List.append_assoc [0x05, n] ms l'))
  obtain ⟨hver, hn'⟩ : y.buf 0 = 0x05 ∧ y.buf 1 = n := by
    injection hslice with h0 hrest
    injection hrest with h1
    exact ⟨h0, h1⟩
  obtain ⟨z, hz, hreads', hslice'⟩ := recv_of_incoming (toNat_le_handshakeBufSize n) hlen
    (hreads.rest hx)
  refine ⟨z, ?_, hreads.trans hreads', hslice'⟩
  have hlt := n.toNat_lt
  rw [recvMethods, Reading.bind_of_ok hy]
  dsimp only
  rw [hver, hn', if_neg (by decide), if_neg (by omega), Reading.bind_of_ok hz]

/-! ### The login -/

/-- Only the received part of the two buffers is compared. -/
theorem socks5CheckCredentials_slice (userBuf passBuf : ℕ → UInt8) (ulen plen : UInt8)
    (user pass : List UInt8) :
    socks5CheckCredentials (slice userBuf 0 stringBufSize) ulen (slice passBuf 0 stringBufSize) plen
        user pass =
      socks5CheckCredentials (slice userBuf 0 ulen.toNat) ulen (slice passBuf 0 plen.toNat) plen
        user pass := by
  have hmem : ∀ (buf : ℕ → UInt8) (len : UInt8) (s : List UInt8),
      memEq (slice buf 0 stringBufSize) s len.toNat = memEq (slice buf 0 len.toNat) s len.toNat := by
    intro buf len s
    rw [memEq, memEq, slice_take _ _ (toNat_le_stringBufSize len), slice_take _ _ le_rfl]
  rw [socks5CheckCredentials, hmem, hmem, socks5CheckCredentials]

theorem checkCredentials_iff {userBuf passBuf : ℕ → UInt8} {ulen plen : UInt8}
    {user pass : List UInt8} (hu : strlen user < 256) (hp : strlen pass < 256) :
    socks5CheckCredentials (slice userBuf 0 stringBufSize) ulen (slice passBuf 0 stringBufSize) plen
        user pass = true ↔
      slice userBuf 0 ulen.toNat = content user ∧ slice passBuf 0 plen.toNat = content pass := by
  rw [socks5CheckCredentials_slice,
    socks5CheckCredentials_iff (length_slice _ _ _) (length_slice _ _ _) hu hp]

theorem doAuthCheck_of_ok {user pass : CharBuf} (hu : strlen user.cells < 256)
    (hp : strlen pass.cells < 256) (h : doAuthCheck stack x user pass = .ok () y) :
    ∃ l, Login (content user.cells) (content pass.cells) l ∧ Reads x l [[0x01, 0x00]] y := by
  obtain ⟨⟨⟩, x₁, hx₁, h⟩ := Reading.bind_eq_ok.mp h
  obtain ⟨l₁, -, hreads₁, rfl⟩ := recv_of_ok hx₁
  dsimp only at h
  split at h
  case isTrue => cases h
  case isFalse hver =>
    split at h
    case isTrue => cases h
    case isFalse hulen =>
      obtain ⟨userBuf, x₂, hx₂, h⟩ := Reading.bind_eq_ok.mp h
      obtain ⟨lu, hlu, hreads₂, hsliceu, -⟩ := recvInto_of_ok hx₂
      obtain ⟨⟨⟩, x₃, hx₃, h⟩ := Reading.bind_eq_ok.mp h
      obtain ⟨l₃, -, hreads₃, rfl⟩ := recv_of_ok hx₃
      split at h
      case isTrue => cases h
      case isFalse =>
        obtain ⟨passBuf, x₄, hx₄, h⟩ := Reading.bind_eq_ok.mp h
        obtain ⟨lp, hlp, hreads₄, hslicep⟩ : ∃ lp, lp.length = (x₃.buf 0).toNat ∧
            Reads x₃ lp [] x₄ ∧ slice passBuf 0 (x₃.buf 0).toNat = lp := by
          split at hx₄
          case isTrue =>
            obtain ⟨lp, hlp, hreads, hslice, -⟩ := recvInto_of_ok hx₄
            exact ⟨lp, hlp, hreads, hslice⟩
          case isFalse hzero =>
            cases hx₄
            have hempty : (x₃.buf 0).toNat = 0 := Nat.eq_zero_of_not_pos hzero
            exact ⟨[], hempty.symm, Reads.refl x₃, by rw [hempty]; rfl⟩
        split at h
        case isFalse => cases h
        case isTrue hcheck =>
          cases h
          obtain ⟨huser, hpass⟩ := (checkCredentials_iff hu hp).mp hcheck
          obtain rfl := hsliceu.symm.trans huser
          obtain rfl := hslicep.symm.trans hpass
          have hreads := ((hreads₁.trans hreads₂).trans (hreads₃.trans hreads₄)).send [0x01, 0x00]
          have hhead : slice x₁.buf 0 2 = [0x01, x₁.buf 1] := by
            rw [← Decidable.not_not.mp hver]
            rfl
          have hone : slice x₃.buf 0 1 = [x₃.buf 0] := rfl
          rw [hhead, hone] at hreads
          have hpos : 1 ≤ (x₁.buf 1).toNat := by
            rw [Nat.one_le_iff_ne_zero]
            intro hzero
            exact hulen (Or.inl (UInt8.toNat_inj.mp hzero))
          exact ⟨_, ⟨x₁.buf 1, x₃.buf 0, rfl, hlu, hpos, hlp⟩, hreads⟩

theorem doAuthCheck_of_incoming {user pass : CharBuf} (hu : strlen user.cells < 256)
    (hp : strlen pass.cells < 256) (hl : Login (content user.cells) (content pass.cells) l)
    (hx : x.incoming = l ++ l') :
    ∃ y, doAuthCheck stack x user pass = .ok () y ∧ Reads x l [[0x01, 0x00]] y := by
  obtain ⟨ulen, plen, rfl, hulen, hpos, hplen⟩ := hl
  have hassoc : x.incoming = [0x01, ulen] ++ (content user.cells ++
      ([plen] ++ (content pass.cells ++ l'))) := by
    rw [hx]
    simp
  obtain ⟨x₁, hx₁, hreads₁, hslice₁⟩ := recv_of_incoming (n := 2) (by decide) rfl hassoc
  obtain ⟨hver, hul⟩ : x₁.buf 0 = 0x01 ∧ x₁.buf 1 = ulen := by
    injection hslice₁ with h0 hrest
    injection hrest with h1
    exact ⟨h0, h1⟩
  obtain ⟨userBuf, x₂, hx₂, hreads₂, hslice₂⟩ := recvInto_of_incoming stack.userBuf
    (toNat_le_stringBufSize ulen) hulen (hreads₁.rest hassoc)
  have hrest₂ := hreads₂.rest (hreads₁.rest hassoc)
  obtain ⟨x₃, hx₃, hreads₃, hslice₃⟩ := recv_of_incoming (n := 1) (by decide) rfl hrest₂
  have hpl : x₃.buf 0 = plen := by
    injection hslice₃
  have hrest₃ := hreads₃.rest hrest₂
  obtain ⟨passBuf, x₄, hx₄, hreads₄, hslice₄⟩ : ∃ passBuf x₄,
      (if 0 < plen.toNat then x₃.recvInto stringBufSize stack.passBuf plen.toNat
        else .ok stack.passBuf x₃) = .ok passBuf x₄ ∧ Reads x₃ (content pass.cells) [] x₄ ∧
      slice passBuf 0 plen.toNat = content pass.cells := by
    by_cases hzero : 0 < plen.toNat
    · rw [if_pos hzero]
      exact recvInto_of_incoming stack.passBuf (toNat_le_stringBufSize plen) hplen hrest₃
    · have hempty : plen.toNat = 0 := Nat.eq_zero_of_not_pos hzero
      have hnil : content pass.cells = [] := List.eq_nil_of_length_eq_zero (hplen.trans hempty)
      rw [if_neg hzero, hnil, hempty]
      exact ⟨_, _, rfl, Reads.refl x₃, rfl⟩
  have hcheck := (checkCredentials_iff hu hp).mpr ⟨hslice₂, hslice₄⟩
  have hreads := ((hreads₁.trans hreads₂).trans (hreads₃.trans hreads₄)).send [0x01, 0x00]
  refine ⟨x₄.send [0x01, 0x00], ?_, hreads⟩
  have hul0 : ¬(ulen = 0 ∨ 255 < ulen.toNat) := by
    have hlt := ulen.toNat_lt
    rintro (rfl | hbig)
    · exact absurd hpos (by decide)
    · omega
  have hplt := plen.toNat_lt
  rw [doAuthCheck, Reading.bind_of_ok hx₁]
  dsimp only
  rw [hver, hul, if_neg (by decide), if_neg hul0, Reading.bind_of_ok hx₂, Reading.bind_of_ok hx₃, hpl,
    if_neg (by omega), Reading.bind_of_ok hx₄, if_pos hcheck]

/-! ### The request -/

theorem recvHost_of_ok {atyp : UInt8} {host : TargetHost} (h : recvHost x atyp = .ok host y) :
    ∃ l, Address atyp l host ∧ Reads x l [] y := by
  unfold recvHost at h
  split at h
  case isTrue hdomain =>
    subst hdomain
    obtain ⟨⟨⟩, x₁, hx₁, h⟩ := Reading.bind_eq_ok.mp h
    obtain ⟨l₁, -, hreads₁, rfl⟩ := recv_of_ok hx₁
    split at h
    case h_1 => cases h
    case h_2 n hn =>
      have hsome : (if 1 ≤ (x₁.buf 0).toNat then some (x₁.buf 0).toNat else none) = some n := hn
      split at hsome
      case isFalse => cases hsome
      case isTrue hpos =>
        obtain rfl := Option.some.inj hsome
        obtain ⟨⟨⟩, x₂, hx₂, h⟩ := Reading.bind_eq_ok.mp h
        obtain ⟨name, hname, hreads₂, rfl⟩ := recv_of_ok hx₂
        split at h
        case isFalse => cases h
        case isTrue =>
          cases h
          exact ⟨_, .domain (x₁.buf 0) _ hname hpos, hreads₁.trans hreads₂⟩
  case isFalse hdomain =>
    split at h
    case h_1 => cases h
    case h_2 n hn =>
      obtain ⟨⟨⟩, x₁, hx₁, h⟩ := Reading.bind_eq_ok.mp h
      cases h
      obtain ⟨addr, hlen, hreads, rfl⟩ := recv_of_ok hx₁
      rw [targetHost, if_neg hdomain]
      unfold socks5RequestAddrLen at hn
      split_ifs at hn with hv4 hv6
      · obtain rfl := Option.some.inj hn
        exact hv4 ▸ ⟨_, .v4 _ hlen, hreads⟩
      · obtain rfl := Option.some.inj hn
        exact hv6 ▸ ⟨_, .v6 _ hlen, hreads⟩

theorem recvHost_of_incoming {atyp : UInt8} {host : TargetHost} (hl : Address atyp l host)
    (hx : x.incoming = l ++ l') : ∃ y, recvHost x atyp = .ok host y ∧ Reads x l [] y := by
  cases hl with
  | v4 _ hlen =>
      obtain ⟨y, hy, hreads, hslice⟩ := recv_of_incoming (n := 4) (by decide) hlen hx
      refine ⟨y, ?_, hreads⟩
      rw [recvHost, if_neg (by decide), socks5RequestAddrLen, if_pos rfl]
      dsimp only
      rw [Reading.bind_of_ok hy, hslice]
      rfl
  | v6 _ hlen =>
      obtain ⟨y, hy, hreads, hslice⟩ := recv_of_incoming (n := 16) (by decide) hlen hx
      refine ⟨y, ?_, hreads⟩
      rw [recvHost, if_neg (by decide), socks5RequestAddrLen, if_neg (by decide), if_pos rfl]
      dsimp only
      rw [Reading.bind_of_ok hy, hslice]
      rfl
  | domain len name hlen hne =>
      have hassoc : x.incoming = [len] ++ (name ++ l') := hx
      obtain ⟨y, hy, hreads, hslice⟩ := recv_of_incoming (n := 1) (by decide) rfl hassoc
      have hbuf : y.buf 0 = len := by
        injection hslice
      obtain ⟨z, hz, hreads', hslice'⟩ := recv_of_incoming (toNat_le_handshakeBufSize len) hlen
        (hreads.rest hassoc)
      have hroom : len.toNat < stringBufSize := len.toNat_lt
      refine ⟨z, ?_, hreads.trans hreads'⟩
      rw [recvHost, if_pos rfl, Reading.bind_of_ok hy]
      have haddr : socks5RequestAddrLen socks5AtypDomain (y.buf 0) = some len.toNat := by
        rw [hbuf]
        exact if_pos hne
      rw [haddr]
      dsimp only
      rw [Reading.bind_of_ok hz, if_pos hroom, hslice']
      rfl

theorem validateRequestHeader_iff {buf : ℕ → UInt8} :
    socks5ValidateRequestHeader (slice buf 0 4) = true ↔
      buf 0 = 0x05 ∧ buf 2 = 0x00 ∧
        (buf 3 = socks5AtypIpv4 ∨ buf 3 = socks5AtypDomain ∨ buf 3 = socks5AtypIpv6) := by
  have hcells : slice buf 0 4 = [buf 0, buf 1, buf 2, buf 3] := rfl
  simp [socks5ValidateRequestHeader, hcells, or_assoc, and_assoc]

theorem supportedCmd_iff {cmd : UInt8} :
    socks5IsSupportedCmd cmd = true ↔ cmd = 0x01 ∨ cmd = 0x03 ∨ cmd = 0x04 := by
  simp [socks5IsSupportedCmd, or_assoc]

theorem calls_iff {cmd : UInt8} {host : TargetHost} {port : ℕ} {r : Request} {x y : Exchange} :
    (if cmd = 0x01 then Reading.ok (.connect host port) x
      else if socks5IsSupportedCmd cmd then .ok (.session cmd) x else .err x) = .ok r y ↔
      r.Calls cmd host port ∧ x = y := by
  by_cases h1 : cmd = 0x01
  · subst h1
    cases r with
    | connect h p => simp [Request.Calls, eq_comm, and_assoc]
    | session c => simp [Request.Calls]
  · rw [if_neg h1]
    by_cases hs : socks5IsSupportedCmd cmd = true
    · rw [if_pos hs]
      rw [supportedCmd_iff] at hs
      cases r with
      | connect h p => simp [Request.Calls, h1]
      | session c =>
          simp only [Request.Calls, Reading.ok.injEq, Request.session.injEq]
          have h34 := hs.resolve_left h1
          constructor
          · rintro ⟨rfl, hxy⟩
            exact ⟨⟨rfl, h34⟩, hxy⟩
          · rintro ⟨⟨rfl, -⟩, hxy⟩
            exact ⟨rfl, hxy⟩
    · rw [if_neg hs]
      rw [supportedCmd_iff] at hs
      cases r with
      | connect h p => simp [Request.Calls, h1]
      | session c =>
          simp only [Request.Calls, reduceCtorEq, false_iff]
          rintro ⟨⟨-, h34⟩, -⟩
          exact hs (Or.inr h34)

theorem address_atyp {atyp : UInt8} {host : TargetHost} (h : Address atyp l host) :
    atyp = socks5AtypIpv4 ∨ atyp = socks5AtypDomain ∨ atyp = socks5AtypIpv6 := by
  cases h with
  | v4 => exact Or.inl rfl
  | v6 => exact Or.inr (Or.inr rfl)
  | domain => exact Or.inr (Or.inl rfl)

theorem recvRequest_of_ok {r : Request} (h : recvRequest x = .ok r y) :
    ∃ l, Asks r l ∧ Reads x l [] y := by
  obtain ⟨⟨⟩, x₁, hx₁, h⟩ := Reading.bind_eq_ok.mp h
  obtain ⟨l₁, -, hreads₁, rfl⟩ := recv_of_ok hx₁
  dsimp only at h
  split at h
  case isTrue => cases h
  case isFalse hvalid =>
    obtain ⟨hver, hrsv, -⟩ := validateRequestHeader_iff.mp (Bool.of_not_eq_false hvalid)
    obtain ⟨host, x₂, hx₂, h⟩ := Reading.bind_eq_ok.mp h
    obtain ⟨addr, haddr, hreads₂⟩ := recvHost_of_ok hx₂
    obtain ⟨⟨⟩, x₃, hx₃, h⟩ := Reading.bind_eq_ok.mp h
    obtain ⟨l₃, -, hreads₃, rfl⟩ := recv_of_ok hx₃
    obtain ⟨hcalls, rfl⟩ := calls_iff.mp h
    rw [lenField_value] at hcalls
    have hhead : slice x₁.buf 0 4 = [0x05, x₁.buf 1, 0x00, x₁.buf 3] := by
      rw [← hver, ← hrsv]
      rfl
    have hreads := (hreads₁.trans hreads₂).trans hreads₃
    rw [hhead] at hreads
    exact ⟨_, ⟨x₁.buf 1, x₁.buf 3, addr, host, x₃.buf 0, x₃.buf 1, rfl, haddr, hcalls⟩, hreads⟩

theorem recvRequest_of_incoming {r : Request} (hl : Asks r l) (hx : x.incoming = l ++ l') :
    ∃ y, recvRequest x = .ok r y ∧ Reads x l [] y := by
  obtain ⟨cmd, atyp, addr, host, hi, lo, rfl, haddr, hcalls⟩ := hl
  have hassoc : x.incoming = [0x05, cmd, 0x00, atyp] ++ (addr ++ ([hi, lo] ++ l')) := by
    rw [hx]
    simp
  obtain ⟨x₁, hx₁, hreads₁, hslice₁⟩ := recv_of_incoming (n := 4) (by decide) rfl hassoc
  obtain ⟨h0, h1, h2, h3⟩ : x₁.buf 0 = 0x05 ∧ x₁.buf 1 = cmd ∧ x₁.buf 2 = 0x00 ∧ x₁.buf 3 = atyp := by
    injection hslice₁ with h0 hrest
    injection hrest with h1 hrest
    injection hrest with h2 hrest
    injection hrest with h3
    exact ⟨h0, h1, h2, h3⟩
  have hvalid : socks5ValidateRequestHeader (slice x₁.buf 0 4) = true :=
    validateRequestHeader_iff.mpr ⟨h0, h2, h3 ▸ address_atyp haddr⟩
  have hrest₁ := hreads₁.rest hassoc
  obtain ⟨x₂, hx₂, hreads₂⟩ := recvHost_of_incoming haddr hrest₁
  have hrest₂ := hreads₂.rest hrest₁
  obtain ⟨x₃, hx₃, hreads₃, hslice₃⟩ := recv_of_incoming (n := 2) (by decide) rfl hrest₂
  obtain ⟨hhi, hlo⟩ : x₃.buf 0 = hi ∧ x₃.buf 1 = lo := by
    injection hslice₃ with h0 hrest
    injection hrest with h1
    exact ⟨h0, h1⟩
  refine ⟨x₃, ?_, by simpa using (hreads₁.trans hreads₂).trans hreads₃⟩
  rw [recvRequest, Reading.bind_of_ok hx₁]
  dsimp only
  rw [hvalid, h1, h3, if_neg (by decide), Reading.bind_of_ok hx₂, Reading.bind_of_ok hx₃, hhi, hlo,
    lenField_value]
  exact calls_iff.mpr ⟨hcalls, rfl⟩

/-! ### The handshake -/

/-- The credentials after these calls of `socks5_server_set_auth`. -/
def authAfter (calls : List AuthArgs) : AuthGlobals :=
  calls.foldl (fun g a => (setAuthStores a).foldl AuthStore.apply g) Negotiation.init.auth

theorem installed_authAfter (calls : List AuthArgs) :
    Installed (authAfter calls) (pairOf calls.getLast?) := by
  induction calls using List.reverseRecOn with
  | nil => rfl
  | append_singleton calls a _ =>
      rw [authAfter, List.foldl_append, List.getLast?_concat]
      exact setAuthStores_installs _ a

section

variable {call : Option AuthArgs}

theorem strlen_memcpy {src : CharBuf} (h : (content src.cells).length ≤ 255) :
    strlen (CharBuf.zero.memcpy src).cells < 256 := by
  rw [strlen, CharBuf.content_memcpy h]
  omega

theorem chooseMethod_of_ok {n : UInt8} {ms : List UInt8} (hg : Installed g (pairOf call))
    (hlen : ms.length = n.toNat) (hms : slice x.buf 0 n.toNat = ms)
    (h : chooseMethod g stack x n = .ok () y) :
    requiredMethod (pairOf call) ∈ ms ∧
      ∃ l, LoggedIn l (pairOf call) ∧ Reads x l (methodReplies (pairOf call)) y := by
  unfold chooseMethod at h
  rw [hms] at h
  cases hpair : pairOf call with
  | none =>
      rw [hpair] at hg
      have hoff : g.enabled = false := hg
      simp only [hoff, Bool.false_eq_true, if_false] at h
      split at h
      case isFalse => cases h
      case isTrue hoffered =>
        cases h
        exact ⟨(socks5MethodOffered_iff hlen).mp hoffered, [], rfl, (Reads.refl x).send _⟩
  | some p =>
      obtain ⟨u, p⟩ := p
      rw [hpair] at hg
      obtain ⟨hon, rfl, rfl⟩ := hg
      obtain ⟨hu, hp⟩ := pairOf_length hpair
      simp only [hon, if_true] at h
      split at h
      case isFalse => cases h
      case isTrue hoffered =>
        obtain ⟨l, hlogin, hreads⟩ := doAuthCheck_of_ok (strlen_memcpy hu) (strlen_memcpy hp) h
        rw [CharBuf.content_memcpy hu, CharBuf.content_memcpy hp] at hlogin
        exact ⟨(socks5MethodOffered_iff hlen).mp hoffered, l, hlogin,
          ((Reads.refl x).send _).trans hreads⟩

theorem chooseMethod_of_incoming {n : UInt8} {ms : List UInt8} (hg : Installed g (pairOf call))
    (hlen : ms.length = n.toNat) (hms : slice x.buf 0 n.toNat = ms)
    (hmem : requiredMethod (pairOf call) ∈ ms) (hl : LoggedIn l (pairOf call))
    (hx : x.incoming = l ++ l') :
    ∃ y, chooseMethod g stack x n = .ok () y ∧ Reads x l (methodReplies (pairOf call)) y := by
  unfold chooseMethod
  rw [hms]
  have hoffered := (socks5MethodOffered_iff hlen).mpr hmem
  cases hpair : pairOf call with
  | none =>
      rw [hpair] at hg hl hoffered
      have hoff : g.enabled = false := hg
      obtain rfl : l = [] := hl
      simp only [hoff, Bool.false_eq_true, if_false]
      have hnone : socks5MethodOffered ms n.toNat 0x00 = true := hoffered
      rw [if_pos hnone]
      exact ⟨_, rfl, (Reads.refl x).send _⟩
  | some p =>
      obtain ⟨u, p⟩ := p
      rw [hpair] at hg hl hoffered
      obtain ⟨hon, rfl, rfl⟩ := hg
      obtain ⟨hu, hp⟩ := pairOf_length hpair
      have hlogin : Login (content (CharBuf.zero.memcpy g.user).cells)
          (content (CharBuf.zero.memcpy g.pass).cells) l := by
        rw [CharBuf.content_memcpy hu, CharBuf.content_memcpy hp]
        exact hl
      obtain ⟨y, hy, hreads⟩ := doAuthCheck_of_incoming (x := x.send [0x05, 0x02])
        (strlen_memcpy hu) (strlen_memcpy hp) hlogin hx
      simp only [hon, if_true]
      have hlogin2 : socks5MethodOffered ms n.toNat 0x02 = true := hoffered
      rw [if_pos hlogin2]
      exact ⟨y, hy, ((Reads.refl x).send _).trans hreads⟩

theorem negotiate_of_ok {req : Request} (hg : Installed g (pairOf call))
    (h : negotiate g stack x = .ok req y) :
    ∃ l, Handshake (pairOf call) req l ∧ Reads x l (methodReplies (pairOf call)) y := by
  obtain ⟨n, x₁, hx₁, h⟩ := Reading.bind_eq_ok.mp h
  obtain ⟨ms, hlen, hn, hreads₁, hms⟩ := recvMethods_of_ok hx₁
  obtain ⟨⟨⟩, x₂, hx₂, h⟩ := Reading.bind_eq_ok.mp h
  obtain ⟨hmem, login, hlogin, hreads₂⟩ := chooseMethod_of_ok hg hlen hms hx₂
  obtain ⟨request, hasks, hreads₃⟩ := recvRequest_of_ok h
  have hreads := (hreads₁.trans hreads₂).trans hreads₃
  rw [List.nil_append, List.append_nil] at hreads
  exact ⟨_, ⟨_, login, request, rfl, ⟨n, ms, rfl, hlen, hn, hmem⟩, hlogin, hasks⟩, hreads⟩

theorem negotiate_of_incoming {req : Request} (hg : Installed g (pairOf call))
    (hl : Handshake (pairOf call) req l) (hx : x.incoming = l ++ l') :
    ∃ y, negotiate g stack x = .ok req y ∧ Reads x l (methodReplies (pairOf call)) y := by
  obtain ⟨_, login, request, rfl, ⟨n, ms, rfl, hlen, hn, hmem⟩, hlogin, hasks⟩ := hl
  have hassoc : x.incoming = 0x05 :: n :: ms ++ (login ++ (request ++ l')) := by
    rw [hx, List.append_assoc, List.append_assoc]
  obtain ⟨x₁, hx₁, hreads₁, hms⟩ := recvMethods_of_incoming hlen hn hassoc
  have hrest₁ := hreads₁.rest hassoc
  obtain ⟨x₂, hx₂, hreads₂⟩ := chooseMethod_of_incoming hg hlen hms hmem hlogin hrest₁
  obtain ⟨y, hy, hreads₃⟩ := recvRequest_of_incoming hasks (hreads₂.rest hrest₁)
  refine ⟨y, ?_, ?_⟩
  · rw [negotiate, Reading.bind_of_ok hx₁, Reading.bind_of_ok hx₂, hy]
  · have hreads := (hreads₁.trans hreads₂).trans hreads₃
    rwa [List.nil_append, List.append_nil] at hreads

end

/-! ### The buffers -/

theorem doAuthCheck_ne_overflow (user pass : CharBuf) :
    doAuthCheck stack x user pass ≠ .overflow := by
  refine Reading.bind_ne_overflow (recv_ne_overflow (by decide)) fun _ x₁ _ => ?_
  dsimp only
  split
  case isTrue => nofun
  split
  case isTrue => nofun
  refine Reading.bind_ne_overflow (recvInto_ne_overflow (toNat_le_stringBufSize _)) fun _ x₂ _ => ?_
  refine Reading.bind_ne_overflow (recv_ne_overflow (by decide)) fun _ x₃ _ => ?_
  split
  case isTrue => nofun
  refine Reading.bind_ne_overflow ?_ fun _ x₄ _ => ?_
  · split
    · exact recvInto_ne_overflow (toNat_le_stringBufSize _)
    · nofun
  · split <;> nofun

theorem recvHost_ne_overflow (atyp : UInt8) : recvHost x atyp ≠ .overflow := by
  unfold recvHost
  split
  case isTrue hdomain =>
    subst hdomain
    refine Reading.bind_ne_overflow (recv_ne_overflow (by decide)) fun _ x₁ _ => ?_
    split
    case h_1 => rintro ⟨⟩
    case h_2 n hn =>
      have hsome : (if 1 ≤ (x₁.buf 0).toNat then some (x₁.buf 0).toNat else none) = some n := hn
      have hlt := (x₁.buf 0).toNat_lt
      split at hsome
      case isFalse => cases hsome
      case isTrue =>
        obtain rfl := Option.some.inj hsome
        refine Reading.bind_ne_overflow (recv_ne_overflow (toNat_le_handshakeBufSize _))
          fun _ x₂ _ => ?_
        have hroom : (x₁.buf 0).toNat < stringBufSize := hlt
        rw [if_pos hroom]
        rintro ⟨⟩
  case isFalse hdomain =>
    split
    case h_1 => rintro ⟨⟩
    case h_2 n hn =>
      refine Reading.bind_ne_overflow (recv_ne_overflow ?_) (by rintro _ _ _ ⟨⟩)
      unfold socks5RequestAddrLen at hn
      split_ifs at hn <;> (obtain rfl := Option.some.inj hn; decide)

theorem negotiate_ne_overflow : negotiate g stack x ≠ .overflow := by
  refine Reading.bind_ne_overflow ?_ fun n x₁ _ => ?_
  · refine Reading.bind_ne_overflow (recv_ne_overflow (by decide)) fun _ x₁ _ => ?_
    dsimp only
    split
    case isTrue => nofun
    split
    case isTrue => nofun
    exact Reading.bind_ne_overflow (recv_ne_overflow (toNat_le_handshakeBufSize _)) nofun
  · refine Reading.bind_ne_overflow ?_ fun _ x₂ _ => ?_
    · unfold chooseMethod
      dsimp only
      generalize (if g.enabled = true then (0x02 : UInt8) else 0x00) = desiredMethod
      split
      case isFalse => nofun
      split
      · exact doAuthCheck_ne_overflow _ _
      · nofun
    · refine Reading.bind_ne_overflow (recv_ne_overflow (by decide)) fun _ x₃ _ => ?_
      dsimp only
      split
      case isTrue => nofun
      refine Reading.bind_ne_overflow (recvHost_ne_overflow _) fun _ x₄ _ => ?_
      refine Reading.bind_ne_overflow (recv_ne_overflow (by decide)) fun _ x₅ _ => ?_
      split
      · nofun
      · split <;> nofun

/-! ### What is served -/

def Request.entry : Request → Effect
  | connect host port => .requestJava5gSocket host port false
  | session cmd => .udpStartSession cmd

theorem served_append (a b : List Effect) : served (a ++ b) = served a ++ served b :=
  List.filterMap_append

theorem sends_append (a b : List Effect) : sends (a ++ b) = sends a ++ sends b :=
  List.filterMap_append

theorem served_map_release (rs : List Resource) : served (rs.map release) = [] := by
  induction rs with
  | nil => rfl
  | cons r rs ih => exact ih

theorem served_map_send (replies : List (List UInt8)) : served (replies.map .send) = [] := by
  induction replies with
  | nil => rfl
  | cons bytes replies ih => exact ih

theorem sends_map_send (replies : List (List UInt8)) : sends (replies.map .send) = replies := by
  induction replies with
  | nil => rfl
  | cons bytes replies ih => exact congrArg (bytes :: ·) ih

section

open SlotFields

theorem served_connUnref (c : SlotFields) : served c.connUnref = [] := by
  unfold connUnref connFinalize
  split
  · split
    · rfl
    · exact served_map_release _
  · rfl

theorem served_udpConnUnref (c : SlotFields) : served c.udpConnUnref = [] := by
  unfold udpConnUnref udpConnFinalize
  split
  · split
    · rfl
    · exact served_map_release _
  · rfl

theorem served_mallocs (o : Outcomes) : served (mallocs o) = [] := by
  unfold mallocs
  split <;> split <;> rfl

variable {unref : SlotFields → List Effect} {o : Outcomes}

theorem served_addAll (hunref : ∀ c, served (unref c) = []) (ds : List Descriptor) (c : SlotFields) :
    served (addAll unref o ds c) = [] := by
  induction ds generalizing c with
  | nil => rfl
  | cons d ds ih =>
      rw [addAll]
      split
      · exact ih _
      · exact hunref _

theorem served_enlist (hunref : ∀ c, served (unref c) = []) (ds : List Descriptor) (c : SlotFields) :
    served (enlist unref o ds c) = [] := by
  unfold enlist
  split
  · exact hunref c
  · exact served_addAll hunref ds _

theorem served_handoffToWorker : served o.handoffToWorker = [] := by
  unfold Outcomes.handoffToWorker
  split
  · have htail : served (if (o.inBuf && o.outBuf) = true then
        enlist connUnref o [.client, .egress] (prepared o true) else connUnref (prepared o true)) = [] := by
      split
      · exact served_enlist served_connUnref _ _
      · exact served_connUnref _
    exact (served_append (acquire .slot :: mallocs o) _).trans
      (congrArg₂ (· ++ ·) (served_mallocs o) htail)
  · rfl

theorem served_udpConnect (resp : List UInt8) (ds : List Descriptor) (c : SlotFields) :
    served (udpConnect o resp ds c) = [] := by
  unfold udpConnect
  split
  · exact served_enlist served_udpConnUnref _ _
  · exact served_udpConnUnref c

theorem served_udpStartSession (cmd : UInt8) : served (udpStartSession o cmd) = [] := by
  unfold udpStartSession
  split
  · rfl
  split
  case isFalse => rfl
  case isTrue =>
    refine (served_append (acquire .quota :: acquire .slot :: mallocs o) _).trans
      (congrArg₂ (· ++ ·) (served_mallocs o) ?_)
    split
    · split
      · split
        · exact served_udpConnect _ _ _
        · exact served_udpConnUnref _
      · exact served_udpConnect _ _ _
    · exact served_udpConnUnref _

/-- With quota left, a request is served by its call, and nothing is sent before. -/
theorem serve_entry (h : o.connCount < maxConcurrentConns) (r : Request) :
    ∃ before after, serve o r = before ++ r.entry :: after ∧ sends before = [] ∧
      served before = [] ∧ served after = [] := by
  cases r with
  | connect host port =>
      rw [serve, if_neg (Nat.not_le.mpr h)]
      refine ⟨[acquire .quota], _, rfl, rfl, rfl, ?_⟩
      split
      · exact served_handoffToWorker
      · rfl
  | session cmd => exact ⟨[], udpStartSession o cmd, rfl, rfl, rfl, served_udpStartSession cmd⟩

theorem served_serve (h : o.connCount < maxConcurrentConns) (r : Request) : served (serve o r) = [r] := by
  obtain ⟨before, after, hserve, -, hbefore, hafter⟩ := serve_entry h r
  have hentry : served (r.entry :: after) = r :: served after := by
    cases r <;> rfl
  rw [hserve, served_append, hbefore, hentry, hafter]
  rfl

end

/-- Under every setting of the credentials and for every stream, a request is served exactly when the
stream begins with a handshake for it. Then no byte behind the handshake has been received and the
method reply and the reply to the login are all that was sent before. In the other case the
connection is closed. Nothing is written outside a buffer. -/
theorem handshake_grammar (calls : List AuthArgs) (stack : AuthStack) (o : Outcomes)
    (hquota : o.connCount < maxConcurrentConns) (incoming : List UInt8) (buf : ℕ → UInt8) :
    ∃ log, handleHandshakeFd (authAfter calls) stack o incoming buf = some log ∧
      (∀ r, r ∈ served log ↔ ∃ l rest, incoming = l ++ rest ∧ Handshake (pairOf calls.getLast?) r l) ∧
      (∀ r l rest, incoming = l ++ rest → Handshake (pairOf calls.getLast?) r l →
        (∃ y, negotiate (authAfter calls) stack ⟨incoming, 0, [], buf⟩ = .ok r y ∧
          y.consumed = l.length ∧ y.incoming = rest) ∧
        ∃ before after, log = before ++ r.entry :: after ∧
          sends before = methodReplies (pairOf calls.getLast?)) ∧
      ((∀ r l rest, incoming = l ++ rest → ¬Handshake (pairOf calls.getLast?) r l) →
        ∃ replies : List (List UInt8), log = replies.map .send ++ [release (.fd .client)]) := by
  have hg := installed_authAfter calls
  have hserved : ∀ {r l rest}, incoming = l ++ rest → Handshake (pairOf calls.getLast?) r l →
      ∃ y, negotiate (authAfter calls) stack ⟨incoming, 0, [], buf⟩ = .ok r y ∧
        Reads ⟨incoming, 0, [], buf⟩ l (methodReplies (pairOf calls.getLast?)) y :=
    fun hx hl => negotiate_of_incoming hg hl hx
  unfold handleHandshakeFd
  cases hneg : negotiate (authAfter calls) stack ⟨incoming, 0, [], buf⟩ with
  | overflow => exact absurd hneg negotiate_ne_overflow
  | err x =>
      have hnone : ∀ r l rest, incoming = l ++ rest → ¬Handshake (pairOf calls.getLast?) r l := by
        intro r l rest hx hl
        obtain ⟨y, hy, -⟩ := hserved hx hl
        rw [hneg] at hy
        cases hy
      refine ⟨_, rfl, fun r => ⟨fun hmem => ?_, ?_⟩, ?_, fun _ => ⟨x.sent, rfl⟩⟩
      · rw [served_append, served_map_send] at hmem
        cases hmem
      · rintro ⟨l, rest, hx, hl⟩
        exact absurd hl (hnone r l rest hx)
      · intro r l rest hx hl
        exact absurd hl (hnone r l rest hx)
  | ok r₀ x =>
      obtain ⟨l₀, hl₀, hreads₀⟩ := negotiate_of_ok hg hneg
      refine ⟨_, rfl, fun r => ⟨fun hmem => ?_, ?_⟩, ?_, fun hnone => ?_⟩
      · rw [served_append, served_map_send, served_serve hquota, List.nil_append,
          List.mem_singleton] at hmem
        subst hmem
        exact ⟨l₀, x.incoming, hreads₀.incoming, hl₀⟩
      · rintro ⟨l, rest, hx, hl⟩
        obtain ⟨y, hy, -⟩ := hserved hx hl
        rw [hneg] at hy
        cases hy
        rw [served_append, served_map_send, served_serve hquota]
        exact List.mem_singleton_self _
      · intro r l rest hx hl
        obtain ⟨y, hy, hreads⟩ := hserved hx hl
        have hsame := hneg.symm.trans hy
        cases hsame
        obtain ⟨before, after, hserve, hsends, -, -⟩ := serve_entry hquota r₀
        refine ⟨⟨x, rfl, ?_, hreads.rest hx⟩, x.sent.map .send ++ before, after, ?_, ?_⟩
        · rw [hreads.consumed, Nat.zero_add]
        · rw [hserve, List.append_assoc]
        · rw [sends_append, sends_map_send, hsends, List.append_nil, hreads.sent, List.nil_append]
      · exact absurd hl₀ (hnone r₀ l₀ x.incoming hreads₀.incoming)

def Outcomes.allGood : Outcomes where
  connCount := 0
  connector := true
  slotAcquire := true
  inBuf := true
  outBuf := true
  socketV6 := true
  socketV4 := true
  widx := 0
  stopping := false
  epollAdd := fun _ => true
  clientName := none
  relayPort := (0, 0)

/-- Without credentials, a client asks for `x:80`, and its first byte for `x` comes at once. -/
theorem handshake_grammar_connect : ∃ log,
    handleHandshakeFd (authAfter []) ⟨fun _ => 0, fun _ => 0⟩ .allGood
        [5, 1, 0, 5, 1, 0, 3, 1, 0x78, 0, 80, 0x47] (fun _ => 0) = some log ∧
      Request.connect (.name [0x78]) 80 ∈ served log := by
  obtain ⟨log, hlog, hserved, -⟩ := handshake_grammar [] ⟨fun _ => 0, fun _ => 0⟩ .allGood (by decide)
    [5, 1, 0, 5, 1, 0, 3, 1, 0x78, 0, 80, 0x47] (fun _ => 0)
  have hasks : Asks (.connect (.name [0x78]) 80) [5, 1, 0, 3, 1, 0x78, 0, 80] :=
    ⟨1, 3, [1, 0x78], _, 0, 80, rfl, .domain 1 [0x78] rfl (by decide), rfl, rfl, rfl⟩
  refine ⟨log, hlog, (hserved _).mpr ⟨[5, 1, 0, 5, 1, 0, 3, 1, 0x78, 0, 80], [0x47], rfl, ?_⟩⟩
  exact ⟨[5, 1, 0], [], [5, 1, 0, 3, 1, 0x78, 0, 80], rfl, ⟨1, [0], rfl, rfl, by decide, by decide⟩,
    rfl, hasks⟩

end FiveGProxy
