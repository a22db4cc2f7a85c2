import FiveGProxy.Handshake.Grammar

/-!
# A handshake by itself

`negotiate` receives a whole handshake at once, into the buffers that the code has, and the steps of
`Negotiation` cut the same function at its system calls and at its accesses under `g_auth_lock`. When
nobody else takes the lock meanwhile and every `recv` is in time, the two do the same with every
stream: they fail on the same ones, and otherwise they come to the same request behind the same byte
(`negotiate_alone`).
-/

namespace FiveGProxy

open CString Memory Steps

/-- Where a handshake is that has received the request. -/
def Request.place : Request → NegotiationPc
  | connect host port => .quota host port
  | session cmd => .session cmd

namespace Negotiation

/-- Client `h` takes its next step, and nobody else does. -/
def aloneStep (h : ℕ) : Step Negotiation Unit := fun st _ => st.clientStep h true

/-- Client `h` gets from `k` to `k'` while everything else stays as it is in `st`. -/
def Gets (st : Negotiation) (h : ℕ) (k k' : Client) : Prop :=
  Reaches (aloneStep h) (st.setClient h k) (st.setClient h k')

/-- `x` and `k` have received the same part of the stream. -/
structure InStep (x : Exchange) (k : Client) : Prop where
  within : k.pos ≤ k.sent.length
  consumed : k.pos = x.consumed
  incoming : k.sent.drop k.pos = x.incoming

/-- The steps of client `h` from `k` on do what `r` says, and `place` is where they end. -/
def Follows {α : Type} (st : Negotiation) (h : ℕ) (k : Client) (place : α → Exchange → NegotiationPc) :
    Reading α → Prop
  | .overflow => False
  | .err _ => ∃ k', st.Gets h k k' ∧ k'.pc = .closed
  | .ok a y => ∃ k', st.Gets h k k' ∧ InStep y k' ∧ k'.sent = k.sent ∧ k'.pc = place a y

variable {α β : Type} {st : Negotiation} {h : ℕ} {k k' : Client} {x : Exchange}

theorem setClient_setClient (st : Negotiation) (h : ℕ) (k k' : Client) :
    (st.setClient h k).setClient h k' = st.setClient h k' := by
  simp [setClient]

theorem gets_of_step (hstep : k.step true = some k') : st.Gets h k k' := by
  refine Reaches.single (a := ()) ?_
  have hself : (st.setClient h k).client h = some k := Function.update_self ..
  unfold aloneStep clientStep
  rw [hself]
  dsimp only
  cases hpc : k.pc
  case authLock | authMethod | authUser | authPass | authUnlock =>
    rw [Client.step, hpc] at hstep
    cases hstep
  all_goals
    dsimp only
    rw [hstep, Option.map_some, setClient_setClient]

theorem Gets.trans {k'' : Client} (h₁ : st.Gets h k k') (h₂ : st.Gets h k' k'') : st.Gets h k k'' :=
  Reaches.trans h₁ h₂

theorem Follows.bind {place : α → Exchange → NegotiationPc} {place' : β → Exchange → NegotiationPc}
    {r : Reading α} {next : α → Exchange → Reading β} (hr : st.Follows h k place r)
    (hnext : ∀ a y k', InStep y k' → k'.pc = place a y → st.Follows h k' place' (next a y)) :
    st.Follows h k place' (r.bind next) := by
  cases r with
  | overflow => exact hr.elim
  | err y => exact hr
  | ok a y =>
      obtain ⟨k₁, hgets, hin, hsent, hpc⟩ := hr
      have hrest := hnext a y k₁ hin hpc
      rw [Reading.bind]
      cases hz : next a y with
      | overflow =>
          rw [hz] at hrest
          exact hrest.elim
      | err z =>
          rw [hz] at hrest
          obtain ⟨k₂, hgets', hclosed⟩ := hrest
          exact ⟨k₂, hgets.trans hgets', hclosed⟩
      | ok b z =>
          rw [hz] at hrest
          obtain ⟨k₂, hgets', hin', hsent', hpc'⟩ := hrest
          exact ⟨k₂, hgets.trans hgets', hin', hsent'.trans hsent, hpc'⟩

/-- The handshake is given up where it is. -/
theorem follows_err {place : α → Exchange → NegotiationPc} (hpc : k.pc = .closed) (y : Exchange) :
    st.Follows h k place (.err y) :=
  ⟨k, Reaches.refl _, hpc⟩

theorem follows_ok {place : α → Exchange → NegotiationPc} {a : α} (hin : InStep x k)
    (hpc : k.pc = place a x) : st.Follows h k place (.ok a x) :=
  ⟨k, Reaches.refl _, hin, rfl, hpc⟩

/-- A step without a `recv`. -/
theorem Follows.after {c : Client} {place : α → Exchange → NegotiationPc} {r : Reading α}
    (hgets : st.Gets h k c) (hsent : c.sent = k.sent) (hr : st.Follows h c place r) :
    st.Follows h k place r := by
  cases r with
  | overflow => exact hr.elim
  | err y =>
      obtain ⟨k₁, hgets', hclosed⟩ := hr
      exact ⟨k₁, hgets.trans hgets', hclosed⟩
  | ok a y =>
      obtain ⟨k₁, hgets', hin, hsent', hpc⟩ := hr
      exact ⟨k₁, hgets.trans hgets', hin, hsent'.trans hsent, hpc⟩

/-! ### One `recv` -/

theorem follows_recvInto {size n : ℕ} {dst : ℕ → UInt8} {next : List UInt8 → NegotiationPc}
    (hin : InStep x k) (hsize : n ≤ size) (hstep : k.step true = some (k.recv n true next)) :
    st.Follows h k (fun buf _ => next (slice buf 0 n)) (x.recvInto size dst n) := by
  have hlength : x.incoming.length = k.sent.length - k.pos := by
    rw [← hin.incoming, List.length_drop]
  rw [Exchange.recvInto, if_neg (Nat.not_lt.mpr hsize)]
  split
  case isTrue hshort =>
    refine ⟨_, gets_of_step hstep, ?_⟩
    rw [Client.recv]
    split
    case isTrue hroom => omega
    case isFalse => rfl
  case isFalse hlong =>
    have hwithin := hin.within
    have hroom : k.pos + n ≤ k.sent.length := by omega
    have hlen : (x.incoming.take n).length = n := by
      rw [List.length_take]
      omega
    have hself := slice_write_self dst 0 (x.incoming.take n)
    rw [hlen] at hself
    have hrecv : k.recv n true next =
        { k with pos := k.pos + n, pc := next ((k.sent.drop k.pos).take n) } :=
      if_pos ⟨rfl, hroom⟩
    refine ⟨_, gets_of_step hstep, ⟨?_, ?_, ?_⟩, ?_, ?_⟩
    · rw [hrecv]
      exact hroom
    · rw [hrecv, hin.consumed]
    · rw [hrecv, ← hin.incoming, List.drop_drop]
    · rw [hrecv]
    · dsimp only
      rw [hrecv, hself, hin.incoming]

theorem follows_recv {n : ℕ} {next : List UInt8 → NegotiationPc} (hin : InStep x k)
    (hn : n ≤ handshakeBufSize) (hstep : k.step true = some (k.recv n true next)) :
    st.Follows h k (fun _ y => next (slice y.buf 0 n)) (x.recv n) := by
  refine (follows_recvInto hin hn hstep).bind fun buf y k' hin' hpc => ?_
  exact follows_ok ⟨hin'.within, hin'.consumed, hin'.incoming⟩ hpc

/-! ### The parts of the handshake -/

theorem follows_recvMethods (hin : InStep x k) (hpc : k.pc = .version) :
    st.Follows h k (fun n y => .authLock (slice y.buf 0 n.toNat)) (recvMethods x) := by
  refine (follows_recv hin (by decide) (by rw [Client.step, hpc])).bind fun _ y k' hin' hpc' => ?_
  have hbuf : (slice y.buf 0 2).getD 0 0 = y.buf 0 ∧ (slice y.buf 0 2).getD 1 0 = y.buf 1 := ⟨rfl, rfl⟩
  rw [hbuf.1, hbuf.2] at hpc'
  split
  case isTrue hver =>
    rw [if_pos hver] at hpc'
    exact follows_err hpc' y
  case isFalse hver =>
    rw [if_neg hver] at hpc'
    have hlt := (y.buf 1).toNat_lt
    dsimp only
    split
    case isTrue hn =>
      rw [if_pos (by omega)] at hpc'
      exact follows_err hpc' y
    case isFalse hn =>
      rw [if_neg (by omega)] at hpc'
      refine (follows_recv hin' (toNat_le_handshakeBufSize _) (by rw [Client.step, hpc'])).bind ?_
      exact fun _ z k'' hin'' hpc'' => follows_ok hin'' hpc''

/-- The section under the lock: the client takes its copies of the credentials. -/
theorem gets_snapshot (hlock : st.lock = none) {methods : List UInt8} (hpc : k.pc = .authLock methods) :
    st.Gets h k (k.goto (if st.auth.enabled then
      .choose methods 0x02 (CharBuf.zero.memcpy st.auth.user) (CharBuf.zero.memcpy st.auth.pass)
    else .choose methods 0x00 .zero .zero)) := by
  cases hen : st.auth.enabled with
  | false =>
      refine ⟨[(), (), ()], ?_⟩
      simp [run, aloneStep, clientStep, setClient, Client.goto, hpc, hlock, hen]
  | true =>
      refine ⟨[(), (), (), (), ()], ?_⟩
      simp [run, aloneStep, clientStep, setClient, Client.goto, hpc, hlock, hen]

theorem follows_doAuthCheck {stack : AuthStack} {user pass : CharBuf} (hin : InStep x k)
    (hpc : k.pc = .subVersion user pass) :
    st.Follows h k (fun _ _ => .request) (doAuthCheck stack x user pass) := by
  refine (follows_recv hin (by decide) (by rw [Client.step, hpc])).bind fun _ y k₁ hin₁ hpc₁ => ?_
  have hbuf : (slice y.buf 0 2).getD 0 0 = y.buf 0 ∧ (slice y.buf 0 2).getD 1 0 = y.buf 1 := ⟨rfl, rfl⟩
  rw [hbuf.1, hbuf.2] at hpc₁
  have hulen := (y.buf 1).toNat_lt
  split
  case isTrue hver =>
    rw [if_pos hver] at hpc₁
    exact follows_err hpc₁ y
  case isFalse hver =>
    rw [if_neg hver] at hpc₁
    dsimp only
    split
    case isTrue hzero =>
      rw [if_pos (hzero.resolve_right (by omega))] at hpc₁
      exact follows_err hpc₁ y
    case isFalse hpos =>
      rw [if_neg fun hzero => hpos (.inl hzero)] at hpc₁
      refine (follows_recvInto hin₁ (toNat_le_stringBufSize _) (by rw [Client.step, hpc₁])).bind ?_
      intro userBuf z k₂ hin₂ hpc₂
      refine (follows_recv hin₂ (by decide) (by rw [Client.step, hpc₂])).bind fun _ v k₃ hin₃ hpc₃ => ?_
      have hone : (slice v.buf 0 1).getD 0 0 = v.buf 0 := rfl
      rw [hone] at hpc₃
      have hplen := (v.buf 0).toNat_lt
      rw [if_neg (by omega)]
      have hread : st.Follows h k₃ (fun passBuf _ => .check user pass (y.buf 1)
            (slice userBuf 0 (y.buf 1).toNat) (v.buf 0) (slice passBuf 0 (v.buf 0).toNat))
          (if 0 < (v.buf 0).toNat then v.recvInto stringBufSize stack.passBuf (v.buf 0).toNat
            else .ok stack.passBuf v) := by
        split
        case isTrue hsome =>
          rw [if_pos hsome] at hpc₃
          exact follows_recvInto hin₃ (toNat_le_stringBufSize _) (by rw [Client.step, hpc₃])
        case isFalse hnone =>
          rw [if_neg hnone] at hpc₃
          have hzero : (v.buf 0).toNat = 0 := by omega
          refine follows_ok hin₃ ?_
          rw [hpc₃, hzero, slice_zero]
      refine hread.bind fun passBuf w k₄ hin₄ hpc₄ => ?_
      rw [socks5CheckCredentials_slice]
      split
      case isTrue hok =>
        refine Follows.after (c := k₄.goto .request) (gets_of_step ?_) rfl ?_
        · rw [Client.step, hpc₄]
          exact if_pos hok
        · exact follows_ok ⟨hin₄.within, hin₄.consumed, hin₄.incoming⟩ rfl
      case isFalse hrefused =>
        refine ⟨k₄.goto .closed, gets_of_step ?_, rfl⟩
        rw [Client.step, hpc₄]
        exact if_neg hrefused

theorem follows_chooseMethod {stack : AuthStack} {n : UInt8} (hlock : st.lock = none) (hin : InStep x k)
    (hpc : k.pc = .authLock (slice x.buf 0 n.toNat)) :
    st.Follows h k (fun _ _ => .request) (chooseMethod st.auth stack x n) := by
  refine Follows.after (gets_snapshot hlock hpc) rfl ?_
  have hsend : ∀ bytes pc, InStep (x.send bytes) (k.goto pc) :=
    fun _ _ => ⟨hin.within, hin.consumed, hin.incoming⟩
  rw [chooseMethod]
  cases hen : st.auth.enabled with
  | false =>
      simp only [Bool.false_eq_true, if_false]
      split
      case isTrue hoffered =>
        refine Follows.after (c := k.goto .request) (gets_of_step ?_) rfl (follows_ok (hsend _ _) rfl)
        simp only [Client.step, Client.goto, length_slice, hoffered, if_true]
        rfl
      case isFalse hnot =>
        refine ⟨k.goto .closed, gets_of_step ?_, rfl⟩
        simp only [Client.step, Client.goto, length_slice, hnot, Bool.false_eq_true, if_false]
  | true =>
      simp only [if_true]
      split
      case isTrue hoffered =>
        refine Follows.after (c := k.goto (.subVersion _ _)) (gets_of_step ?_) rfl
          (follows_doAuthCheck (hsend _ _) rfl)
        simp only [Client.step, Client.goto, length_slice, hoffered, if_true]
      case isFalse hnot =>
        refine ⟨k.goto .closed, gets_of_step ?_, rfl⟩
        simp only [Client.step, Client.goto, length_slice, hnot, Bool.false_eq_true, if_false]

/-- Where a handshake goes on behind the header of the request. -/
def addressPlace (cmd atyp : UInt8) : NegotiationPc :=
  if atyp = socks5AtypDomain then .domainLen cmd
  else ((socks5RequestAddrLen atyp 0).map (NegotiationPc.addr cmd atyp)).getD .closed

theorem follows_recvHost {cmd atyp : UInt8} (hin : InStep x k) (hpc : k.pc = addressPlace cmd atyp) :
    st.Follows h k (fun host _ => .port cmd host) (recvHost x atyp) := by
  rw [recvHost]
  rw [addressPlace] at hpc
  split
  case isTrue hdomain =>
    rw [if_pos hdomain] at hpc
    refine (follows_recv hin (by decide) (by rw [Client.step, hpc])).bind fun _ y k₁ hin₁ hpc₁ => ?_
    have hone : (slice y.buf 0 1).getD 0 0 = y.buf 0 := rfl
    rw [hone] at hpc₁
    subst hdomain
    cases hlen : socks5RequestAddrLen socks5AtypDomain (y.buf 0) with
    | none =>
        rw [hlen] at hpc₁
        exact follows_err hpc₁ y
    | some n =>
        rw [hlen] at hpc₁
        have hn : n ≤ 255 := by
          have hlt := (y.buf 0).toNat_lt
          rw [socks5RequestAddrLen, if_neg (by decide), if_neg (by decide), if_pos rfl] at hlen
          split at hlen
          case isTrue =>
            cases hlen
            omega
          case isFalse => cases hlen
        refine (follows_recv hin₁ (hn.trans (by decide)) (by rw [Client.step, hpc₁])).bind ?_
        intro _ z k₂ hin₂ hpc₂
        have hroom : n < stringBufSize := Nat.lt_succ_of_le hn
        rw [if_pos hroom]
        exact follows_ok hin₂ hpc₂
  case isFalse hdomain =>
    rw [if_neg hdomain] at hpc
    cases hlen : socks5RequestAddrLen atyp 0 with
    | none =>
        rw [hlen] at hpc
        exact follows_err hpc x
    | some n =>
        rw [hlen, Option.map_some, Option.getD_some] at hpc
        have hn : n ≤ handshakeBufSize := by
          rw [socks5RequestAddrLen, if_neg hdomain] at hlen
          split at hlen
          case isTrue =>
            cases hlen
            decide
          case isFalse =>
            split at hlen
            case isTrue =>
              cases hlen
              decide
            case isFalse => cases hlen
        refine (follows_recv hin hn (by rw [Client.step, hpc])).bind fun _ y k₁ hin₁ hpc₁ => ?_
        exact follows_ok hin₁ hpc₁

theorem follows_recvRequest (hin : InStep x k) (hpc : k.pc = .request) :
    st.Follows h k (fun r _ => r.place) (recvRequest x) := by
  refine (follows_recv hin (by decide) (by rw [Client.step, hpc])).bind fun _ y k₁ hin₁ hpc₁ => ?_
  have hbuf : (slice y.buf 0 4).getD 1 0 = y.buf 1 ∧ (slice y.buf 0 4).getD 3 0 = y.buf 3 := ⟨rfl, rfl⟩
  rw [hbuf.1, hbuf.2] at hpc₁
  split
  case isTrue hheader =>
    rw [if_pos hheader] at hpc₁
    exact follows_err hpc₁ y
  case isFalse hheader =>
    rw [if_neg hheader] at hpc₁
    have hplace : k₁.pc = addressPlace (y.buf 1) (y.buf 3) := by
      rw [hpc₁, addressPlace]
      cases socks5RequestAddrLen (y.buf 3) 0 <;> rfl
    refine (follows_recvHost hin₁ hplace).bind fun host z k₂ hin₂ hpc₂ => ?_
    refine (follows_recv hin₂ (by decide) (by rw [Client.step, hpc₂])).bind fun _ v k₃ hin₃ hpc₃ => ?_
    have hport : (slice v.buf 0 2).getD 0 0 = v.buf 0 ∧ (slice v.buf 0 2).getD 1 0 = v.buf 1 :=
      ⟨rfl, rfl⟩
    rw [hport.1, hport.2] at hpc₃
    dsimp only
    split
    case isTrue hconnect =>
      rw [if_pos hconnect] at hpc₃
      exact follows_ok hin₃ hpc₃
    case isFalse hconnect =>
      rw [if_neg hconnect] at hpc₃
      split
      case isTrue hcmd =>
        rw [if_pos hcmd] at hpc₃
        exact follows_ok hin₃ hpc₃
      case isFalse hcmd =>
        rw [if_neg hcmd] at hpc₃
        exact follows_err hpc₃ v

end Negotiation

open Negotiation

/-- A client that is served by itself, with every `recv` in time, comes to the request that
`negotiate` finds in its stream under the credentials of that moment, with as many bytes received,
and fails when `negotiate` does. -/
theorem negotiate_alone {st : Negotiation} (hlock : st.lock = none) (h : ℕ) (stack : AuthStack)
    (stream : List UInt8) (buf : ℕ → UInt8) :
    st.Follows h ⟨stream, 0, .version⟩ (fun r _ => r.place)
      (negotiate st.auth stack ⟨stream, 0, [], buf⟩) := by
  have hin : InStep ⟨stream, 0, [], buf⟩ ⟨stream, 0, .version⟩ := ⟨Nat.zero_le _, rfl, rfl⟩
  refine (follows_recvMethods hin rfl).bind fun n y k₁ hin₁ hpc₁ => ?_
  refine (follows_chooseMethod hlock hin₁ hpc₁).bind fun _ z k₂ hin₂ hpc₂ => ?_
  exact follows_recvRequest hin₂ hpc₂

/-- The state of `loginRun` in which user `u` with password `p` has been installed. -/
def userInstalled : Negotiation := (run negotiationStep .init (loginRun.take 8)).getD .init

/-- A client logs in as this user, asks for `x:80` and sends the first byte for it. -/
def loginStream : List UInt8 := [5, 1, 2, 1, 1, 0x75, 1, 0x70, 5, 1, 0, 3, 1, 0x78, 0, 80, 0x47]

theorem negotiate_alone_login : ∃ k, userInstalled.Gets 0 ⟨loginStream, 0, .version⟩ k ∧
    k.pc = .quota (.name [0x78]) 80 ∧ k.pos = 16 := by
  have hfollows : userInstalled.Follows 0 ⟨loginStream, 0, .version⟩ (fun r _ => r.place)
      (negotiate userInstalled.auth ⟨fun _ => 0, fun _ => 0⟩ ⟨loginStream, 0, [], fun _ => 0⟩) :=
    negotiate_alone rfl 0 _ _ _
  obtain ⟨y, hy, hconsumed⟩ : ∃ y, negotiate userInstalled.auth ⟨fun _ => 0, fun _ => 0⟩
      ⟨loginStream, 0, [], fun _ => 0⟩ = .ok (.connect (.name [0x78]) 80) y ∧ y.consumed = 16 :=
    ⟨_, rfl, rfl⟩
  rw [hy] at hfollows
  obtain ⟨k, hgets, hin, -, hpc⟩ := hfollows
  exact ⟨k, hgets, hpc, hin.consumed.trans hconsumed⟩

end FiveGProxy
