import FiveGProxy.Handshake.Model

/-!
# Authentication cannot be bypassed

A client that is served has sent the credentials that one call of `socks5_server_set_auth` installed,
and this call was the current one when the snapshot was taken; or no credentials were installed then.
The lock keeps a snapshot from mixing two calls, and the strings of the globals are short enough for
the lengths of a byte.
-/

namespace FiveGProxy

open CString Steps

/-! ### What a call installs -/

/-- The pair of strings that the call installs; `none` when it turns authentication off. -/
def AuthArgs.pair (a : AuthArgs) : Option (List UInt8 × List UInt8) :=
  match a.user, a.pass with
  | some u, some p =>
      if u.bytes = [] ∨ p.bytes = [] then none else some (u.bytes.take 255, p.bytes.take 255)
  | none, _ | some _, none => none

def Installed (g : AuthGlobals) : Option (List UInt8 × List UInt8) → Prop
  | none => g.enabled = false
  | some (u, p) => g.enabled = true ∧ content g.user.cells = u ∧ content g.pass.cells = p

theorem CharBuf.content_strncpy (b : CharBuf) (s : CStr UInt8) :
    content ((b.strncpy s).terminate 255).cells = s.bytes.take 255 :=
  CString.content_strncpy (by rw [b.length]; decide) s.noNul

theorem setAuthStores_installs (g : AuthGlobals) (a : AuthArgs) :
    Installed ((setAuthStores a).foldl AuthStore.apply g) a.pair := by
  obtain ⟨_ | u, pass⟩ := a
  · rfl
  obtain _ | p := pass
  · rfl
  by_cases hempty : u.bytes = [] ∨ p.bytes = []
  · simp only [setAuthStores, AuthArgs.pair, if_pos hempty]
    rfl
  · simp only [setAuthStores, AuthArgs.pair, if_neg hempty]
    exact ⟨rfl, g.user.content_strncpy u, g.pass.content_strncpy p⟩

theorem AuthArgs.pair_length {a : AuthArgs} {u p : List UInt8} (h : a.pair = some (u, p)) :
    u.length ≤ 255 ∧ p.length ≤ 255 := by
  unfold AuthArgs.pair at h
  split at h
  case h_1 =>
    split at h
    case isTrue => cases h
    case isFalse =>
      obtain ⟨rfl, rfl⟩ := Prod.mk.inj (Option.some.inj h)
      exact ⟨List.length_take_le 255 _, List.length_take_le 255 _⟩
  case h_2 | h_3 => cases h

/-- The copy of a buffer with a short string holds the same string. -/
theorem CharBuf.content_memcpy {src : CharBuf} (h : (content src.cells).length ≤ 255) :
    content (CharBuf.zero.memcpy src).cells = content src.cells :=
  content_take_append h _

/-! ### The record -/

/-- The calls of `socks5_server_set_auth` in the order in which they took the lock, and the one that
was current when each client's snapshot was taken. -/
structure AuthLog where
  calls : List AuthArgs
  snapshot : ℕ → Option AuthArgs

def AuthLog.empty : AuthLog := ⟨[], fun _ => none⟩

def recordAuth (st : Negotiation) (ev : NegotiationEvent) (log : AuthLog) : AuthLog :=
  match ev with
  | .setter c =>
      match st.setter c with
      | .lock a => { log with calls := log.calls ++ [a] }
      | .idle | .store _ => log
  | .client h _ =>
      match (st.client h).map Client.pc with
      | some (.authLock _) => { log with
          snapshot := Function.update log.snapshot h log.calls.getLast? }
      | _ => log
  | .accept .. | .setAuth .. => log

/-- The pair that is installed by the call, if there was one and it installs one. -/
def pairOf (call : Option AuthArgs) : Option (List UInt8 × List UInt8) := call.bind AuthArgs.pair

/-- Authentication was off when the snapshot was taken, or the client offered method 2 and sent the
pair of the current call. -/
def Authorised (call : Option AuthArgs) (sent : List UInt8) : Prop :=
  pairOf call = none ∨
    ∃ user pass, pairOf call = some (user, pass) ∧
      ∃ nmethods methods ulen plen rest,
        sent = 0x05 :: nmethods :: methods ++ 0x01 :: ulen :: user ++ plen :: pass ++ rest ∧
          methods.length = nmethods.toNat ∧ 0x02 ∈ methods ∧ user.length = ulen.toNat ∧
            pass.length = plen.toNat

/-! ### What one client has sent -/

/-- The client has sent `l`, and all of it has been received. -/
def Client.Consumed (k : Client) (l : List UInt8) : Prop :=
  ∃ rest, k.sent = l ++ rest ∧ k.pos = l.length

/-- A `recv` fails, or it returns the next `n` bytes. -/
theorem Client.recv_cases {k : Client} {l : List UInt8} (h : k.Consumed l) (n : ℕ) (ok : Bool)
    (next : List UInt8 → NegotiationPc) :
    k.recv n ok next = k.goto .closed ∨
      ∃ buf k', k.recv n ok next = Client.goto k' (next buf) ∧ buf.length = n ∧ k'.sent = k.sent ∧
        k'.Consumed (l ++ buf) := by
  obtain ⟨rest, hsent, hpos⟩ := h
  unfold Client.recv
  split
  case isFalse => exact Or.inl rfl
  case isTrue hroom =>
    obtain ⟨-, hroom⟩ := hroom
    rw [hpos, hsent, List.length_append] at hroom
    have hbuf : (k.sent.drop k.pos).take n = rest.take n := by
      rw [hsent, hpos, List.drop_left]
    have hlen : (rest.take n).length = n := by
      rw [List.length_take]
      omega
    refine Or.inr ⟨rest.take n, { k with pos := k.pos + n }, ?_, hlen, rfl, rest.drop n, ?_, ?_⟩
    · rw [hbuf]
      rfl
    · rw [hsent, List.append_assoc, List.take_append_drop]
    · rw [List.length_append, hlen, hpos]

def Client.Greeted (k : Client) (methods : List UInt8) : Prop :=
  ∃ nmethods, k.Consumed (0x05 :: nmethods :: methods) ∧ methods.length = nmethods.toNat

/-- The local copies are the pair of the current call, or it turned authentication off. -/
def SnapshotOk (call : Option AuthArgs) (desired : UInt8) (user pass : CharBuf) : Prop :=
  desired = 0x00 ∧ pairOf call = none ∨
    desired = 0x02 ∧ pairOf call = some (content user.cells, content pass.cells)

/-- The greeting offers method 2, the copies are the pair of the current call, and `l` has been
received behind the greeting. -/
def Client.Challenged (k : Client) (call : Option AuthArgs) (user pass : CharBuf)
    (l : List UInt8) : Prop :=
  pairOf call = some (content user.cells, content pass.cells) ∧
    ∃ nmethods methods, k.Consumed (0x05 :: nmethods :: methods ++ l) ∧
      methods.length = nmethods.toNat ∧ 0x02 ∈ methods

/-- How far a handshake has come, given the call that was current at its snapshot. -/
def Client.Progress (call : Option AuthArgs) (k : Client) : Prop :=
  match k.pc with
  | .version => k.Consumed []
  | .methods nmethods => k.Consumed [0x05, nmethods]
  | .authLock methods | .authMethod methods | .authUser methods | .authPass methods _ =>
      k.Greeted methods
  | .authUnlock methods desired user pass | .choose methods desired user pass =>
      k.Greeted methods ∧ SnapshotOk call desired user pass
  | .subVersion user pass => k.Challenged call user pass []
  | .subUser user pass ulen => k.Challenged call user pass [0x01, ulen]
  | .subPlen user pass ulen userBuf =>
      k.Challenged call user pass (0x01 :: ulen :: userBuf) ∧ userBuf.length = ulen.toNat
  | .subPass user pass ulen userBuf plen =>
      k.Challenged call user pass (0x01 :: ulen :: userBuf ++ [plen]) ∧ userBuf.length = ulen.toNat
  | .check user pass ulen userBuf plen passBuf =>
      k.Challenged call user pass (0x01 :: ulen :: userBuf ++ plen :: passBuf) ∧
        userBuf.length = ulen.toNat ∧ passBuf.length = plen.toNat
  | .request | .domainLen _ | .addr .. | .port .. | .quota .. | .connect .. | .session _ =>
      Authorised call k.sent
  | .closed => True

theorem eq_pair_of_length {buf : List UInt8} (h : buf.length = 2) :
    buf = [buf.getD 0 0, buf.getD 1 0] := by
  obtain ⟨a, b, rfl⟩ := List.length_eq_two.mp h
  rfl

theorem eq_singleton_of_length {buf : List UInt8} (h : buf.length = 1) : buf = [buf.getD 0 0] := by
  obtain ⟨a, rfl⟩ := List.length_eq_one_iff.mp h
  rfl

theorem pairOf_length {call : Option AuthArgs} {u p : List UInt8} (h : pairOf call = some (u, p)) :
    u.length ≤ 255 ∧ p.length ≤ 255 := by
  obtain ⟨a, -, ha⟩ := Option.bind_eq_some_iff.mp h
  exact a.pair_length ha

/-- A `recv` during the check of the credentials. -/
theorem Client.Challenged.recv_cases {k : Client} {call : Option AuthArgs} {user pass : CharBuf}
    {l : List UInt8} (h : k.Challenged call user pass l) (n : ℕ) (ok : Bool)
    (next : List UInt8 → NegotiationPc) :
    k.recv n ok next = k.goto .closed ∨
      ∃ buf k', k.recv n ok next = Client.goto k' (next buf) ∧ buf.length = n ∧
        k'.Challenged call user pass (l ++ buf) := by
  obtain ⟨hpair, nmethods, methods, hcons, hmethods, hoffered⟩ := h
  rcases Client.recv_cases hcons n ok next with heq | ⟨buf, k', heq, hlen, -, hcons'⟩
  · exact Or.inl heq
  · rw [List.append_assoc] at hcons'
    exact Or.inr ⟨buf, k', heq, hlen, hpair, nmethods, methods, hcons', hmethods, hoffered⟩

theorem Client.Challenged.authorised {k : Client} {call : Option AuthArgs} {user pass : CharBuf}
    {ulen plen : UInt8} {userBuf passBuf : List UInt8}
    (h : k.Challenged call user pass (0x01 :: ulen :: userBuf ++ plen :: passBuf))
    (hu : userBuf.length = ulen.toNat) (hp : passBuf.length = plen.toNat)
    (hcheck : socks5CheckCredentials userBuf ulen passBuf plen user.cells pass.cells = true) :
    Authorised call k.sent := by
  obtain ⟨hpair, nmethods, methods, ⟨rest, hsent, -⟩, hlen, hoffered⟩ := h
  obtain ⟨hulen, hplen⟩ := pairOf_length hpair
  obtain ⟨rfl, rfl⟩ := (socks5CheckCredentials_iff hu hp (Nat.lt_succ_of_le hulen)
    (Nat.lt_succ_of_le hplen)).mp hcheck
  refine Or.inr ⟨_, _, hpair, nmethods, methods, ulen, plen, rest, ?_, hlen, hoffered, hu, hp⟩
  rw [hsent]
  simp

def NegotiationPc.pastAuth : NegotiationPc → Bool
  | .request | .domainLen _ | .addr .. | .port .. | .quota .. | .connect .. | .session _ | .closed =>
      true
  | .version | .methods _ | .authLock _ | .authMethod _ | .authUser _ | .authPass .. | .authUnlock ..
  | .choose .. | .subVersion .. | .subUser .. | .subPlen .. | .subPass .. | .check .. => false

theorem Client.Progress.of_authorised {k : Client} {call : Option AuthArgs}
    (h : Authorised call k.sent) (hpast : k.pc.pastAuth = true) : k.Progress call := by
  unfold Client.Progress
  cases hpc : k.pc <;> rw [hpc] at hpast <;> first
    | exact h
    | trivial

theorem Client.Progress.recv_of_authorised {k : Client} {call : Option AuthArgs}
    (h : Authorised call k.sent) (n : ℕ) (ok : Bool) {next : List UInt8 → NegotiationPc}
    (hnext : ∀ buf, (next buf).pastAuth = true) : (k.recv n ok next).Progress call := by
  refine .of_authorised ?_ ?_ <;> unfold Client.recv <;> split
  · exact h
  · exact h
  · exact hnext _
  · rfl

theorem Client.Progress.step {k k' : Client} {call : Option AuthArgs} {ok : Bool}
    (h : k.Progress call) (hstep : k.step ok = some k') : k'.Progress call := by
  unfold Client.step at hstep
  unfold Client.Progress at h
  split at hstep
  all_goals
    rename_i hpc
    rw [hpc] at h
  case h_1 =>
    obtain rfl := Option.some.inj hstep
    rcases Client.recv_cases h 2 ok _ with heq | ⟨buf, k', heq, hlen, -, hcons⟩ <;> rw [heq]
    · trivial
    · rw [eq_pair_of_length hlen] at hcons
      split
      · trivial
      case isFalse hver =>
        split
        · trivial
        · rw [not_not.mp hver] at hcons
          exact hcons
  case h_2 nmethods =>
    obtain rfl := Option.some.inj hstep
    rcases Client.recv_cases h nmethods.toNat ok _ with heq | ⟨buf, k', heq, hlen, -, hcons⟩ <;>
      rw [heq]
    · trivial
    · exact ⟨nmethods, hcons, hlen⟩
  case h_3 methods desired user pass =>
    obtain ⟨⟨nmethods, hcons, hlen⟩, hsnap⟩ := h
    split at hstep
    case isFalse =>
      obtain rfl := Option.some.inj hstep
      trivial
    case isTrue hoffered =>
      obtain rfl := Option.some.inj hstep
      rcases hsnap with ⟨rfl, hnone⟩ | ⟨rfl, hpair⟩
      · exact Or.inl hnone
      · refine ⟨hpair, nmethods, methods, ?_, hlen, (socks5MethodOffered_iff rfl).mp hoffered⟩
        rwa [List.append_nil]
  case h_4 user pass =>
    obtain rfl := Option.some.inj hstep
    rcases h.recv_cases 2 ok _ with heq | ⟨buf, k', heq, hlen, hnext⟩ <;> rw [heq]
    · trivial
    · rw [List.nil_append, eq_pair_of_length hlen] at hnext
      split
      · trivial
      case isFalse hver =>
        split
        · trivial
        · rw [not_not.mp hver] at hnext
          exact hnext
  case h_5 user pass ulen =>
    obtain rfl := Option.some.inj hstep
    rcases h.recv_cases ulen.toNat ok _ with heq | ⟨buf, k', heq, hlen, hnext⟩ <;> rw [heq]
    · trivial
    · exact ⟨hnext, hlen⟩
  case h_6 user pass ulen userBuf =>
    obtain ⟨hchallenged, hulen⟩ := h
    obtain rfl := Option.some.inj hstep
    rcases hchallenged.recv_cases 1 ok _ with heq | ⟨buf, k', heq, hlen, hnext⟩ <;> rw [heq]
    · trivial
    · rw [eq_singleton_of_length hlen] at hnext
      split
      case isTrue => exact ⟨hnext, hulen⟩
      case isFalse hzero => exact ⟨hnext, hulen, (Nat.eq_zero_of_not_pos hzero).symm⟩
  case h_7 user pass ulen userBuf plen =>
    obtain ⟨hchallenged, hulen⟩ := h
    obtain rfl := Option.some.inj hstep
    rcases hchallenged.recv_cases plen.toNat ok _ with heq | ⟨buf, k', heq, hlen, hnext⟩ <;> rw [heq]
    · trivial
    · rw [List.append_assoc] at hnext
      exact ⟨hnext, hulen, hlen⟩
  case h_8 user pass ulen userBuf plen passBuf =>
    obtain ⟨hchallenged, hulen, hplen⟩ := h
    split at hstep
    case isTrue hcheck =>
      obtain rfl := Option.some.inj hstep
      exact hchallenged.authorised hulen hplen hcheck
    case isFalse =>
      obtain rfl := Option.some.inj hstep
      trivial
  case h_9 =>
    obtain rfl := Option.some.inj hstep
    refine .recv_of_authorised h 4 ok fun buf => ?_
    repeat' split
    all_goals rfl
  case h_10 cmd =>
    obtain rfl := Option.some.inj hstep
    refine .recv_of_authorised h 1 ok fun buf => ?_
    split <;> rfl
  case h_11 cmd atyp addrLen =>
    obtain rfl := Option.some.inj hstep
    exact .recv_of_authorised h addrLen ok fun _ => rfl
  case h_12 cmd host =>
    obtain rfl := Option.some.inj hstep
    refine .recv_of_authorised h 2 ok fun buf => ?_
    repeat' split
    all_goals rfl
  case h_13 host port =>
    obtain rfl := Option.some.inj hstep
    exact .of_authorised h (by cases ok <;> rfl)
  all_goals cases hstep

/-! ### The lock -/

variable {st st' : Negotiation} {log : AuthLog}

def Client.InSection (st : Negotiation) (log : AuthLog) (h : ℕ) (k : Client) : Prop :=
  match k.pc with
  | .authMethod _ => st.lock = some (.client h) ∧ log.snapshot h = log.calls.getLast?
  | .authUser _ => st.lock = some (.client h) ∧ log.snapshot h = log.calls.getLast? ∧
      st.auth.enabled = true
  | .authPass _ user => st.lock = some (.client h) ∧ log.snapshot h = log.calls.getLast? ∧
      st.auth.enabled = true ∧ user = CharBuf.zero.memcpy st.auth.user
  | .authUnlock .. => st.lock = some (.client h)
  | _ => True

/-- Unless a call is in its section, the globals hold what the last call has installed. -/
structure AuthInv (st : Negotiation) (log : AuthLog) : Prop where
  auth : (∀ c, st.lock ≠ some (.setter c)) → Installed st.auth (pairOf log.calls.getLast?)
  setter : ∀ c todo, st.setter c = .store todo → st.lock = some (.setter c) ∧
    Installed (todo.foldl AuthStore.apply st.auth) (pairOf log.calls.getLast?)
  held : ∀ c, st.lock = some (.setter c) → ∃ todo, st.setter c = .store todo
  progress : ∀ h k, st.client h = some k → k.Progress (log.snapshot h)
  inSection : ∀ h k, st.client h = some k → k.InSection st log h

theorem AuthInv.init : AuthInv .init .empty where
  auth _ := rfl
  setter _ _ h := nomatch h
  held _ h := nomatch h
  progress _ _ h := nomatch h
  inSection _ _ h := nomatch h

def NegotiationPc.holdsLock : NegotiationPc → Bool
  | .authMethod _ | .authUser _ | .authPass .. | .authUnlock .. => true
  | _ => false

theorem Client.InSection.of_pc {h : ℕ} {k : Client} (hpc : k.pc.holdsLock = false) :
    k.InSection st log h := by
  unfold Client.InSection
  cases hk : k.pc <;> rw [hk] at hpc <;> trivial

/-- Whoever does not hold the lock does not rely on anything under it. -/
theorem Client.InSection.frame {h : ℕ} {k : Client} {log' : AuthLog} (hk : k.InSection st log h)
    (hlock : st.lock ≠ some (.client h)) : k.InSection st' log' h := by
  refine .of_pc ?_
  unfold Client.InSection at hk
  cases hpc : k.pc <;> rw [hpc] at hk <;> first
    | rfl
    | exact absurd hk hlock
    | exact absurd hk.1 hlock

theorem Client.InSection.congr {h : ℕ} {k : Client} {log' : AuthLog} (hk : k.InSection st log h)
    (hlock : st'.lock = some (.client h)) (hauth : st'.auth = st.auth)
    (hcalls : log'.calls = log.calls) (hsnapshot : log'.snapshot h = log.snapshot h) :
    k.InSection st' log' h := by
  unfold Client.InSection at hk ⊢
  rw [hlock, hauth, hcalls, hsnapshot]
  cases hpc : k.pc <;> rw [hpc] at hk <;> first
    | trivial
    | exact ⟨rfl, hk.2⟩

theorem Client.step_holdsLock {k k' : Client} {ok : Bool} (hstep : k.step ok = some k') :
    k'.pc.holdsLock = false := by
  have hrecv : ∀ (n : ℕ) {next : List UInt8 → NegotiationPc},
      (∀ buf, (next buf).holdsLock = false) → (k.recv n ok next).pc.holdsLock = false := by
    intro n next hnext
    unfold Client.recv
    split
    · exact hnext _
    · rfl
  unfold Client.step at hstep
  split at hstep
  case h_3 =>
    split at hstep <;> obtain rfl := Option.some.inj hstep
    · unfold Client.goto
      split <;> rfl
    · rfl
  case h_8 =>
    split at hstep <;>
    · obtain rfl := Option.some.inj hstep
      rfl
  case h_13 =>
    obtain rfl := Option.some.inj hstep
    cases ok <;> rfl
  case h_1 | h_2 | h_4 | h_5 | h_6 | h_7 | h_9 | h_10 | h_11 | h_12 =>
    obtain rfl := Option.some.inj hstep
    refine hrecv _ fun buf => ?_
    repeat' split
    all_goals rfl
  all_goals cases hstep

/-- Client `h` goes from `k` to `k'`, and nobody else is concerned. -/
theorem AuthInv.setClient {h : ℕ} {k' : Client} {log' : AuthLog} (hinv : AuthInv st log)
    (hcalls : log'.calls = log.calls) (hsnapshot : ∀ g, g ≠ h → log'.snapshot g = log.snapshot g)
    (hclient : st'.client = Function.update st.client h (some k')) (hauth : st'.auth = st.auth)
    (hsetter : st'.setter = st.setter)
    (hlock : ∀ o, o ≠ .client h → (st'.lock = some o ↔ st.lock = some o))
    (hprogress : k'.Progress (log'.snapshot h)) (hsection : k'.InSection st' log' h) :
    AuthInv st' log' where
  auth hfree := by
    rw [hauth, hcalls]
    exact hinv.auth fun c hc => hfree c ((hlock (.setter c) (by rintro ⟨⟩)).mpr hc)
  setter c todo hc := by
    rw [hsetter] at hc
    obtain ⟨hheld, hinstalled⟩ := hinv.setter c todo hc
    rw [hauth, hcalls]
    exact ⟨(hlock (.setter c) (by rintro ⟨⟩)).mpr hheld, hinstalled⟩
  held c hc := by
    rw [hsetter]
    exact hinv.held c ((hlock (.setter c) (by rintro ⟨⟩)).mp hc)
  progress g k hk := by
    rw [hclient] at hk
    by_cases hg : g = h
    · subst hg
      rw [Function.update_self] at hk
      exact Option.some.inj hk ▸ hprogress
    · rw [Function.update_of_ne hg] at hk
      rw [hsnapshot g hg]
      exact hinv.progress g k hk
  inSection g k hk := by
    rw [hclient] at hk
    by_cases hg : g = h
    · subst hg
      rw [Function.update_self] at hk
      exact Option.some.inj hk ▸ hsection
    · rw [Function.update_of_ne hg] at hk
      have hold := hinv.inSection g k hk
      by_cases hheld : st.lock = some (.client g)
      · have hne : LockHolder.client g ≠ .client h := fun heq => hg (LockHolder.client.inj heq)
        exact hold.congr ((hlock _ hne).mpr hheld) hauth hcalls (hsnapshot g hg)
      · exact hold.frame hheld

theorem AuthInv.stepClient {h : ℕ} {ok : Bool} (hinv : AuthInv st log)
    (hstep : st.clientStep h ok = some st') :
    AuthInv st' (recordAuth st (.client h ok) log) := by
  unfold Negotiation.clientStep at hstep
  split at hstep
  case h_1 => cases hstep
  case h_2 k hk =>
    have hprogress := hinv.progress h k hk
    have hsection := hinv.inSection h k hk
    have hsame : (∀ m, k.pc ≠ .authLock m) → recordAuth st (.client h ok) log = log := by
      intro hpc
      simp only [recordAuth, hk, Option.map_some]
      split
      case h_1 m heq => exact absurd (Option.some.inj heq) (hpc m)
      case h_2 => rfl
    unfold Client.Progress at hprogress
    unfold Client.InSection at hsection
    split at hstep
    case h_1 methods hpc =>
      rw [hpc] at hprogress
      split at hstep
      case isFalse => cases hstep
      case isTrue hfree =>
        obtain rfl := Option.some.inj hstep
        have hlog : recordAuth st (.client h ok) log =
            { log with snapshot := Function.update log.snapshot h log.calls.getLast? } := by
          simp [recordAuth, hk, hpc]
        rw [hlog]
        refine hinv.setClient rfl (fun g hg => Function.update_of_ne hg _ _) rfl rfl rfl
          (fun o ho => ?_) hprogress ⟨rfl, Function.update_self ..⟩
        rw [hfree]
        exact ⟨fun heq => absurd (Option.some.inj heq).symm ho, (by rintro ⟨⟩)⟩
    case h_2 methods hpc =>
      rw [hpc] at hprogress hsection
      obtain ⟨hheld, hsnapshot⟩ := hsection
      obtain rfl := Option.some.inj hstep
      rw [hsame (by simp [hpc])]
      have hinstalled := hinv.auth (by simp [hheld])
      refine hinv.setClient rfl (fun _ _ => rfl) rfl rfl rfl (fun _ _ => Iff.rfl)
        ?_ ?_ <;> cases hen : st.auth.enabled
      · refine ⟨hprogress, Or.inl ⟨rfl, ?_⟩⟩
        rw [hsnapshot]
        cases hpair : pairOf log.calls.getLast? with
        | none => rfl
        | some p =>
            rw [hpair] at hinstalled
            exact absurd (hen.symm.trans hinstalled.1) (by decide)
      · exact hprogress
      · exact hheld
      · exact ⟨hheld, hsnapshot, hen⟩
    case h_3 methods hpc =>
      rw [hpc] at hprogress hsection
      obtain ⟨hheld, hsnapshot, hen⟩ := hsection
      obtain rfl := Option.some.inj hstep
      rw [hsame (by simp [hpc])]
      exact hinv.setClient rfl (fun _ _ => rfl) rfl rfl rfl (fun _ _ => Iff.rfl)
        hprogress ⟨hheld, hsnapshot, hen, rfl⟩
    case h_4 methods user hpc =>
      rw [hpc] at hprogress hsection
      obtain ⟨hheld, hsnapshot, hen, rfl⟩ := hsection
      obtain rfl := Option.some.inj hstep
      rw [hsame (by simp [hpc])]
      have hinstalled := hinv.auth (by simp [hheld])
      refine hinv.setClient rfl (fun _ _ => rfl) rfl rfl rfl (fun _ _ => Iff.rfl)
        ⟨hprogress, Or.inr ⟨rfl, ?_⟩⟩ hheld
      rw [hsnapshot]
      cases hpair : pairOf log.calls.getLast? with
      | none =>
          rw [hpair] at hinstalled
          exact absurd (hen.symm.trans hinstalled) (by decide)
      | some p =>
          obtain ⟨u, p⟩ := p
          rw [hpair] at hinstalled
          obtain ⟨-, rfl, rfl⟩ := hinstalled
          obtain ⟨hu, hp⟩ := pairOf_length hpair
          rw [CharBuf.content_memcpy hu, CharBuf.content_memcpy hp]
    case h_5 methods desired user pass hpc =>
      rw [hpc] at hprogress hsection
      obtain rfl := Option.some.inj hstep
      rw [hsame (by simp [hpc])]
      refine hinv.setClient rfl (fun _ _ => rfl) rfl rfl rfl (fun o ho => ?_) hprogress trivial
      rw [hsection]
      exact ⟨(by rintro ⟨⟩), fun heq => absurd (Option.some.inj heq).symm ho⟩
    case h_6 hpc _ _ _ _ =>
      obtain ⟨k', hk', rfl⟩ := Option.map_eq_some_iff.mp hstep
      rw [hsame hpc]
      exact hinv.setClient rfl (fun _ _ => rfl) rfl rfl rfl (fun _ _ => Iff.rfl)
        ((hinv.progress h k hk).step hk')
        (.of_pc (Client.step_holdsLock hk'))

theorem AuthInv.stepSetter {c : ℕ} (hinv : AuthInv st log) (hstep : st.setterStep c = some st') :
    AuthInv st' (recordAuth st (.setter c) log) := by
  have hclients : ∀ log' : AuthLog, st'.client = st.client → log'.snapshot = log.snapshot →
      (∀ h, st.lock ≠ some (.client h)) →
      (∀ h k, st'.client h = some k → k.Progress (log'.snapshot h)) ∧
        ∀ h k, st'.client h = some k → k.InSection st' log' h := by
    intro log' hclient hsnapshot hlock
    rw [hclient, hsnapshot]
    exact ⟨hinv.progress, fun h k hk => (hinv.inSection h k hk).frame (hlock h)⟩
  unfold Negotiation.setterStep at hstep
  split at hstep
  case h_1 => cases hstep
  case h_2 a hpc =>
    split at hstep
    case isFalse => cases hstep
    case isTrue hfree =>
      obtain rfl := Option.some.inj hstep
      have hlog : recordAuth st (.setter c) log = { log with calls := log.calls ++ [a] } := by
        simp only [recordAuth, hpc]
      rw [hlog]
      obtain ⟨hprogress, hsection⟩ := hclients { log with calls := log.calls ++ [a] } rfl rfl
        (by simp [hfree])
      refine ⟨fun hno => absurd rfl (hno c), fun d todo hd => ?_, fun d hd => ?_, hprogress, hsection⟩
      · by_cases hdc : d = c
        · subst hdc
          obtain rfl : setAuthStores a = todo := by simpa [Negotiation.setSetter] using hd
          refine ⟨rfl, ?_⟩
          rw [List.getLast?_concat]
          exact setAuthStores_installs st.auth a
        · have hold := (hinv.setter d todo (by simpa [Negotiation.setSetter, hdc] using hd)).1
          rw [hfree] at hold
          cases hold
      · obtain rfl : c = d := LockHolder.setter.inj (Option.some.inj hd)
        exact ⟨setAuthStores a, by simp [Negotiation.setSetter]⟩
  case h_3 x todo hpc =>
    obtain rfl := Option.some.inj hstep
    obtain ⟨hheld, hinstalled⟩ := hinv.setter c _ hpc
    have hlog : recordAuth st (.setter c) log = log := by simp only [recordAuth, hpc]
    rw [hlog]
    obtain ⟨hprogress, hsection⟩ := hclients log rfl rfl (by simp [hheld])
    refine ⟨fun hno => absurd hheld (hno c), fun d todo' hd => ?_, fun d hd => ?_, hprogress, hsection⟩
    · by_cases hdc : d = c
      · subst hdc
        obtain rfl : todo = todo' := by simpa [Negotiation.setSetter] using hd
        exact ⟨hheld, hinstalled⟩
      · have hold := (hinv.setter d todo' (by simpa [Negotiation.setSetter, hdc] using hd)).1
        rw [hheld] at hold
        exact absurd (LockHolder.setter.inj (Option.some.inj hold)).symm hdc
    · have hd : st.lock = some (.setter d) := hd
      rw [hheld] at hd
      obtain rfl : c = d := LockHolder.setter.inj (Option.some.inj hd)
      exact ⟨todo, by simp [Negotiation.setSetter]⟩
  case h_4 hpc =>
    obtain rfl := Option.some.inj hstep
    obtain ⟨hheld, hinstalled⟩ := hinv.setter c _ hpc
    have hlog : recordAuth st (.setter c) log = log := by simp only [recordAuth, hpc]
    rw [hlog]
    obtain ⟨hprogress, hsection⟩ := hclients log rfl rfl (by simp [hheld])
    refine ⟨fun _ => hinstalled, fun d todo hd => ?_, nofun, hprogress, hsection⟩
    have hdc : d ≠ c := by
      rintro rfl
      simp [Negotiation.setSetter] at hd
    have hold := (hinv.setter d todo (by simpa [Negotiation.setSetter, hdc] using hd)).1
    rw [hheld] at hold
    exact absurd (LockHolder.setter.inj (Option.some.inj hold)).symm hdc

theorem AuthInv.step {ev : NegotiationEvent} (hinv : AuthInv st log)
    (hstep : negotiationStep st ev = some st') : AuthInv st' (recordAuth st ev log) := by
  cases ev with
  | client h ok => exact hinv.stepClient hstep
  | setter c => exact hinv.stepSetter hstep
  | accept h sent =>
      simp only [negotiationStep] at hstep
      split at hstep
      case h_1 =>
        obtain rfl := Option.some.inj hstep
        exact hinv.setClient rfl (fun _ _ => rfl) rfl rfl rfl (fun _ _ => Iff.rfl) ⟨sent, rfl, rfl⟩
          trivial
      case h_2 => cases hstep
  | setAuth c a =>
      simp only [negotiationStep] at hstep
      split at hstep
      case h_1 hidle =>
        obtain rfl := Option.some.inj hstep
        refine ⟨hinv.auth, fun d todo hd => ?_, fun d hd => ?_, hinv.progress, hinv.inSection⟩
        · have hdc : d ≠ c := by
            rintro rfl
            simp [Negotiation.setSetter] at hd
          exact hinv.setter d todo (by simpa [Negotiation.setSetter, hdc] using hd)
        · obtain ⟨todo, htodo⟩ := hinv.held d hd
          have hdc : d ≠ c := by
            rintro rfl
            rw [hidle] at htodo
            cases htodo
          exact ⟨todo, by simpa [Negotiation.setSetter, hdc] using htodo⟩
      case h_2 | h_3 => cases hstep

/-- In every run, whoever is served has been authorised by the call that was current at its
snapshot. -/
theorem authentication_not_bypassed {evs : List NegotiationEvent}
    (hrun : run (record negotiationStep recordAuth) (.init, .empty) evs = some (st, log)) (h : ℕ)
    (k : Client) (hk : st.client h = some k)
    (hserved : (∃ host port, k.pc = .connect host port) ∨ ∃ cmd, k.pc = .session cmd) :
    Authorised (log.snapshot h) k.sent := by
  have hinv : AuthInv st log :=
    record_invariant (fun _ _ _ _ hp hstep => hp.step hstep) AuthInv.init hrun
  have hprogress := hinv.progress h k hk
  unfold Client.Progress at hprogress
  rcases hserved with ⟨host, port, hpc⟩ | ⟨cmd, hpc⟩ <;>
  · rw [hpc] at hprogress
    exact hprogress

def NegotiationPc.target : NegotiationPc → Option (TargetHost × ℕ)
  | .connect host asked => some (host, asked)
  | _ => none

theorem NegotiationPc.target_eq_some {pc : NegotiationPc} {host : TargetHost} {port : ℕ}
    (h : pc.target = some (host, port)) : pc = .connect host port := by
  cases pc <;> cases h
  rfl

/-- User `u` with password `p` is installed; a client sends them and asks for `x:80`. -/
def loginRun : List NegotiationEvent :=
  List.flatten [[.setAuth 0 ⟨some ⟨[0x75], by decide⟩, some ⟨[0x70], by decide⟩⟩],
    List.replicate 7 (.setter 0),
    [.accept 0 [5, 1, 2, 1, 1, 0x75, 1, 0x70, 5, 1, 0, 3, 1, 0x78, 0, 80]],
    List.replicate 18 (.client 0 true)]

theorem authentication_not_bypassed_login : ∃ st log k,
    run (record negotiationStep recordAuth) (.init, .empty) loginRun = some (st, log) ∧
      st.client 0 = some k ∧ k.pc = .connect (.name [0x78]) 80 ∧
        Authorised (log.snapshot 0) k.sent := by
  obtain ⟨⟨st, log⟩, hrun, hpc⟩ := Option.map_eq_some_iff.mp
    (by decide +kernel : (run (record negotiationStep recordAuth) (.init, .empty) loginRun).map
      (fun p => (p.1.client 0).bind fun k => k.pc.target) = some (some (.name [0x78], 80)))
  obtain ⟨k, hk, htarget⟩ := Option.bind_eq_some_iff.mp hpc
  have hkpc := NegotiationPc.target_eq_some htarget
  exact ⟨st, log, k, hrun, hk, hkpc, authentication_not_bypassed hrun 0 k hk (Or.inl ⟨_, _, hkpc⟩)⟩

end FiveGProxy
