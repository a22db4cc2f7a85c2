import FiveGProxy.Handshake.Auth
import FiveGProxy.Handshake.Grammar
import FiveGProxy.Library.Utf8

/-!
# Credentials of the self-test

`SelfTest` logs in with the request that `Socks5ClientProtocol.authRequest` encodes; the server
checks it against what `setSocks5Auth` has installed. The strings come from the same settings, as
UTF-16 text. The request has the standard UTF-8 bytes with lengths of one byte; the JNI hands the
modified UTF-8 bytes to the server, which keeps 255 of them.
-/

namespace FiveGProxy

open CString

/-- `Socks5ClientProtocol.authRequest`. -/
def authRequest (user pass : List UInt16) : List UInt8 :=
  let u := Utf8.encode user
  let p := Utf8.encode pass
  0x01 :: UInt8.ofNat u.length :: u ++ UInt8.ofNat p.length :: p

/-- `GetStringUTFChars`. -/
def getStringUTFChars (s : List UInt16) : CStr UInt8 := ⟨Utf8.modified s, Utf8.zero_notMem_modified s⟩

/-- The call of `socks5_server_set_auth` in `native_set_socks5_auth`. -/
def nativeSetSocks5Auth (user pass : Option (List UInt16)) : AuthArgs where
  user := some ((user.map getStringUTFChars).getD (getStringUTFChars []))
  pass := some ((pass.map getStringUTFChars).getD (getStringUTFChars []))

/-- `socks5_server_set_auth`. -/
def AuthGlobals.setAuth (g : AuthGlobals) (a : AuthArgs) : AuthGlobals :=
  (setAuthStores a).foldl AuthStore.apply g

/-- Once the pair is installed, the request of the self-test is received as it is, and accepted,
whatever comes behind it. -/
def CredentialsAgree (user pass : List UInt16) : Prop :=
  ∀ (g : AuthGlobals) (stack : AuthStack) (x : Exchange) (rest : List UInt8),
    let installed := g.setAuth (nativeSetSocks5Auth (some user) (some pass))
    x.incoming = authRequest user pass ++ rest →
      ∃ y, doAuthCheck stack x (CharBuf.zero.memcpy installed.user)
          (CharBuf.zero.memcpy installed.pass) = .ok () y ∧
        Reads x (authRequest user pass) [[0x01, 0x00]] y

/-! ### What is compared -/

variable {user pass : List UInt16}

theorem content_setAuth (hu : user ≠ []) (hp : pass ≠ []) (g : AuthGlobals) :
    let installed := g.setAuth (nativeSetSocks5Auth (some user) (some pass))
    content (CharBuf.zero.memcpy installed.user).cells = (Utf8.modified user).take 255 ∧
      content (CharBuf.zero.memcpy installed.pass).cells = (Utf8.modified pass).take 255 := by
  intro installed
  have hpair : (nativeSetSocks5Auth (some user) (some pass)).pair =
      some ((Utf8.modified user).take 255, (Utf8.modified pass).take 255) :=
    if_neg (not_or.mpr ⟨Utf8.modified_ne_nil hu, Utf8.modified_ne_nil hp⟩)
  have hinstalled := setAuthStores_installs g (nativeSetSocks5Auth (some user) (some pass))
  rw [hpair] at hinstalled
  obtain ⟨-, huser, hpass⟩ := hinstalled
  constructor
  · rw [CharBuf.content_memcpy (huser ▸ List.length_take_le 255 _)]
    exact huser
  · rw [CharBuf.content_memcpy (hpass ▸ List.length_take_le 255 _)]
    exact hpass

/-- The pair agrees exactly when the request is a login with what has been kept of the pair. -/
theorem credentialsAgree_iff_login (hu : user ≠ []) (hp : pass ≠ []) :
    CredentialsAgree user pass ↔
      Login ((Utf8.modified user).take 255) ((Utf8.modified pass).take 255)
        (authRequest user pass) := by
  have hlt : ∀ (b : CharBuf) (s : List UInt8), content b.cells = s.take 255 → strlen b.cells < 256 := by
    intro b s hs
    rw [strlen, hs]
    exact Nat.lt_succ_of_le (List.length_take_le 255 _)
  constructor
  · intro h
    let x : Exchange := ⟨authRequest user pass, 0, [], fun _ => 0⟩
    let g : AuthGlobals := ⟨false, CharBuf.zero, CharBuf.zero⟩
    obtain ⟨y, hy, hreads⟩ := h g ⟨fun _ => 0, fun _ => 0⟩ x [] (List.append_nil _).symm
    obtain ⟨huser, hpass⟩ := content_setAuth hu hp g
    obtain ⟨l, hl, hreads'⟩ := doAuthCheck_of_ok (hlt _ _ huser) (hlt _ _ hpass) hy
    rw [huser, hpass] at hl
    have hlen : l.length = (authRequest user pass).length :=
      Nat.add_left_cancel (hreads'.consumed.symm.trans hreads.consumed)
    have heq := (List.append_inj (hreads'.incoming.symm.trans hreads.incoming) hlen).1
    rwa [heq] at hl
  · intro hl g stack x rest installed hx
    obtain ⟨huser, hpass⟩ := content_setAuth hu hp g
    apply doAuthCheck_of_incoming (hlt _ _ huser) (hlt _ _ hpass) _ hx
    rwa [huser, hpass]

/-- The lengths of a login have one byte each, so a text that does not fit is never taken whole. -/
theorem login_iff {u p u' p' : List UInt8} (hne : u' ≠ []) (hp' : p'.length ≤ 255) :
    Login u' p' (0x01 :: UInt8.ofNat u.length :: u ++ UInt8.ofNat p.length :: p) ↔
      u.length ≤ 255 ∧ p.length ≤ 255 ∧ u = u' ∧ p = p' := by
  constructor
  · rintro ⟨ulen, plen, heq, hulen, -, hplen⟩
    obtain ⟨hhead, heq⟩ := List.cons.inj (List.cons.inj heq).2
    have hmod : u'.length = u.length % 2 ^ 8 := by
      rw [hulen, ← hhead]
      exact UInt8.toNat_ofNat'
    have htotal := congrArg List.length heq
    simp only [List.append_eq, List.length_append, List.length_cons] at htotal
    obtain ⟨rfl, htail⟩ := List.append_inj heq (by omega)
    obtain rfl := (List.cons.inj htail).2
    exact ⟨by omega, hp', rfl, rfl⟩
  · rintro ⟨hu, hp, rfl, rfl⟩
    have hto : ∀ {n : ℕ}, n ≤ 255 → n = (UInt8.ofNat n).toNat := by
      intro n hn
      rw [UInt8.toNat_ofNat']
      omega
    refine ⟨_, _, rfl, hto hu, ?_, hto hp⟩
    rw [← hto hu]
    exact List.length_pos_iff.mpr hne

/-- The pair agrees exactly when both texts fit into their length bytes and have no code unit that
the two encodings write differently: no `0` and no surrogate, so no character beyond the basic
plane. -/
theorem credentials_agree_iff (hu : user ≠ []) (hp : pass ≠ []) :
    CredentialsAgree user pass ↔
      (Utf8.encode user).length ≤ 255 ∧ (Utf8.encode pass).length ≤ 255 ∧
        (∀ c ∈ user, Utf8.Plain c) ∧ ∀ c ∈ pass, Utf8.Plain c := by
  have hne : (Utf8.modified user).take 255 ≠ [] := by
    rw [Ne, List.take_eq_nil_iff, not_or]
    exact ⟨by decide, Utf8.modified_ne_nil hu⟩
  rw [credentialsAgree_iff_login hu hp, authRequest, login_iff hne (List.length_take_le 255 _)]
  constructor
  · rintro ⟨hulen, hplen, huser, hpass⟩
    exact ⟨hulen, hplen, (Utf8.encode_eq_take_iff hulen).mp huser,
      (Utf8.encode_eq_take_iff hplen).mp hpass⟩
  · rintro ⟨hulen, hplen, huser, hpass⟩
    exact ⟨hulen, hplen, (Utf8.encode_eq_take_iff hulen).mpr huser,
      (Utf8.encode_eq_take_iff hplen).mpr hpass⟩

/-- `alice` and `secret`. -/
theorem credentials_agree_ascii :
    CredentialsAgree [0x61, 0x6C, 0x69, 0x63, 0x65] [0x73, 0x65, 0x63, 0x72, 0x65, 0x74] := by
  -- by the units of the string, not by all values of 16 bits
  have hplain : ∀ {s : List UInt16}, s.all (fun c => decide (Utf8.Plain c)) = true →
      ∀ c ∈ s, Utf8.Plain c :=
    fun h c hc => of_decide_eq_true (List.all_eq_true.mp h c hc)
  exact (credentials_agree_iff (by decide) (by decide)).mpr
    ⟨by decide, by decide, hplain (by decide), hplain (by decide)⟩

/-- The password is one character beyond the basic plane: four bytes in the request, two surrogates
of three bytes each in the server. -/
theorem credentials_disagree : ¬CredentialsAgree [0x61] [0xD83D, 0xDE00] := by
  rw [credentialsAgree_iff_login (by decide) (by decide), authRequest, login_iff (by decide) (by decide)]
  decide

end FiveGProxy
