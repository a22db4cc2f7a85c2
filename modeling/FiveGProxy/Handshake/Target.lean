import FiveGProxy.Handshake.Model

/-!
# The name in a CONNECT request

The domain of a request stands behind its length in what the client has sent; `host` is a C string.
`recordRequest` keeps where the request of each client begins. What goes to the connector is the
domain up to its first NUL, so it is the domain when there is none.
-/

namespace FiveGProxy

open CString Steps

def recordRequest (st : Negotiation) (ev : NegotiationEvent) (start : ℕ → ℕ) : ℕ → ℕ :=
  match ev with
  | .client h _ =>
      match st.client h with
      | some ⟨_, pos, .request⟩ => Function.update start h pos
      | _ => start
  | .accept .. | .setAuth .. | .setter _ => start

/-- The ATYP of the request at `a`. -/
def Client.requestAtyp (k : Client) (a : ℕ) : UInt8 := k.sent.getD (a + 3) 0

/-- The domain of the request at `a`. -/
def Client.requestDomain (k : Client) (a : ℕ) : List UInt8 :=
  (k.sent.drop (a + 5)).take (k.sent.getD (a + 4) 0).toNat

/-- How much of the request at `a` has been read. -/
def Client.Asked (a : ℕ) (k : Client) : Prop :=
  match k.pc with
  | .domainLen _ => k.requestAtyp a = socks5AtypDomain ∧ k.pos = a + 4
  | .addr _ atyp n =>
      k.requestAtyp a = atyp ∧
        (atyp = socks5AtypDomain → k.pos = a + 5 ∧ n = (k.sent.getD (a + 4) 0).toNat)
  | .port _ host | .quota host _ | .connect host _ =>
      k.requestAtyp a = socks5AtypDomain → host = .name (content (k.requestDomain a ++ [0]))
  | _ => True

def NegotiationPc.beforeRequest : NegotiationPc → Bool
  | .domainLen _ | .addr .. | .port .. | .quota .. | .connect .. => false
  | _ => true

theorem Client.Asked.of_before {k : Client} {a : ℕ} (h : k.pc.beforeRequest = true) : k.Asked a := by
  unfold Client.Asked
  cases hpc : k.pc <;> rw [hpc] at h <;> trivial

theorem Client.Asked.recv_before {k : Client} {a n : ℕ} {ok : Bool} {next : List UInt8 → NegotiationPc}
    (h : ∀ buf, (next buf).beforeRequest = true) : (k.recv n ok next).Asked a := by
  refine .of_before ?_
  unfold Client.recv
  split
  · exact h _
  · rfl

theorem getD_take_drop {l : List UInt8} {a n i : ℕ} (h : i < n) :
    ((l.drop a).take n).getD i 0 = l.getD (a + i) 0 := by
  rw [List.getD_eq_getElem?_getD, List.getElem?_take_of_lt h, List.getElem?_drop,
    ← List.getD_eq_getElem?_getD]

theorem Client.asked_request {k : Client} {ok : Bool} {k' : Client} (hpc : k.pc = .request)
    (hstep : k.step ok = some k') : k'.Asked k.pos := by
  simp only [Client.step, hpc] at hstep
  obtain rfl := Option.some.inj hstep
  unfold Client.recv
  split
  case isFalse => exact .of_before rfl
  case isTrue =>
    have hatyp : ((k.sent.drop k.pos).take 4).getD 3 0 = k.sent.getD (k.pos + 3) 0 :=
      getD_take_drop (by decide)
    dsimp only
    rw [hatyp]
    split
    · exact .of_before rfl
    split
    case isTrue hdomain => exact ⟨hdomain, rfl⟩
    case isFalse hdomain =>
      split
      · exact .of_before rfl
      · exact ⟨rfl, fun heq => absurd heq hdomain⟩

theorem Client.Asked.step {k k' : Client} {a : ℕ} {ok : Bool} (h : k.Asked a)
    (hpc : k.pc ≠ .request) (hstep : k.step ok = some k') : k'.Asked a := by
  unfold Client.step at hstep
  unfold Client.Asked at h
  split at hstep
  all_goals
    rename_i hat
    rw [hat] at h
  case h_9 => exact absurd hat hpc
  case h_10 cmd =>
    obtain ⟨hatyp, hpos⟩ := h
    obtain rfl := Option.some.inj hstep
    unfold Client.recv
    split
    case isFalse => exact .of_before rfl
    case isTrue =>
      have hlen : ((k.sent.drop k.pos).take 1).getD 0 0 = k.sent.getD (a + 4) 0 := by
        rw [getD_take_drop (by decide), hpos, Nat.add_zero]
      dsimp only
      rw [hlen]
      split
      case h_1 => exact .of_before rfl
      case h_2 n hn =>
        refine ⟨hatyp, fun _ => ⟨congrArg (· + 1) hpos, ?_⟩⟩
        have hsome : (if 1 ≤ (k.sent.getD (a + 4) 0).toNat then
            some (k.sent.getD (a + 4) 0).toNat else none) = some n := hn
        split at hsome
        · exact (Option.some.inj hsome).symm
        · cases hsome
  case h_11 cmd atyp n =>
    obtain ⟨hatyp, hdomain⟩ := h
    obtain rfl := Option.some.inj hstep
    unfold Client.recv
    split
    case isFalse => exact .of_before rfl
    case isTrue =>
      intro heq
      have hat' : atyp = socks5AtypDomain := hatyp.symm.trans heq
      obtain ⟨hpos, rfl⟩ := hdomain hat'
      rw [targetHost, if_pos hat', hpos]
      rfl
  case h_12 cmd host =>
    obtain rfl := Option.some.inj hstep
    unfold Client.recv
    split
    case isFalse => exact .of_before rfl
    case isTrue =>
      dsimp only
      split
      · exact h
      · split <;> exact .of_before rfl
  case h_13 host port =>
    obtain rfl := Option.some.inj hstep
    cases ok
    · exact .of_before rfl
    · exact h
  case h_14 | h_15 | h_16 | h_17 | h_18 | h_19 | h_20 | h_21 => cases hstep
  case h_2 nmethods => exact Option.some.inj hstep ▸ .recv_before fun _ => rfl
  case h_5 user pass ulen => exact Option.some.inj hstep ▸ .recv_before fun _ => rfl
  case h_7 user pass ulen userBuf plen => exact Option.some.inj hstep ▸ .recv_before fun _ => rfl
  case h_1 =>
    refine Option.some.inj hstep ▸ .recv_before fun buf => ?_
    repeat' split
    all_goals rfl
  case h_4 user pass =>
    refine Option.some.inj hstep ▸ .recv_before fun buf => ?_
    repeat' split
    all_goals rfl
  case h_6 user pass ulen userBuf =>
    refine Option.some.inj hstep ▸ .recv_before fun buf => ?_
    split <;> rfl
  case h_3 methods desired user pass =>
    refine .of_before ?_
    split at hstep
    · obtain rfl := Option.some.inj hstep
      rw [Client.goto]
      split <;> rfl
    · obtain rfl := Option.some.inj hstep
      rfl
  case h_8 user pass ulen userBuf plen passBuf =>
    refine .of_before ?_
    split at hstep <;> obtain rfl := Option.some.inj hstep <;> rfl

def AllAsked (st : Negotiation) (start : ℕ → ℕ) : Prop :=
  ∀ h k, st.client h = some k → k.Asked (start h)

variable {st st' : Negotiation} {start : ℕ → ℕ}

theorem AllAsked.setClient (hall : AllAsked st start) {h a : ℕ} {k : Client} (hk : k.Asked a)
    (hclient : st'.client = Function.update st.client h (some k)) :
    AllAsked st' (Function.update start h a) := by
  intro h' k' hk'
  rw [hclient] at hk'
  by_cases heq : h' = h
  · subst heq
    rw [Function.update_self] at hk' ⊢
    cases hk'
    exact hk
  · rw [Function.update_of_ne heq] at hk' ⊢
    exact hall h' k' hk'

theorem AllAsked.stepClient {h : ℕ} {ok : Bool} (hall : AllAsked st start)
    (hstep : st.clientStep h ok = some st') :
    AllAsked st' (recordRequest st (.client h ok) start) := by
  have hkeep : ∀ {k : Client}, k.Asked (start h) →
      st'.client = Function.update st.client h (some k) → AllAsked st' start := by
    intro k hk hclient
    have hset := hall.setClient hk hclient
    rwa [Function.update_eq_self] at hset
  cases hk : st.client h with
  | none => simp [Negotiation.clientStep, hk] at hstep
  | some k =>
      obtain ⟨sent, pos, pc⟩ := k
      simp only [Negotiation.clientStep, hk] at hstep
      by_cases hpc : pc = .request
      · subst hpc
        obtain ⟨k', hk', rfl⟩ := Option.map_eq_some_iff.mp hstep
        simp only [recordRequest, hk]
        exact hall.setClient (Client.asked_request rfl hk') rfl
      · have hsame : recordRequest st (.client h ok) start = start := by
          simp only [recordRequest, hk]
          cases pc <;> first
            | rfl
            | exact absurd rfl hpc
        rw [hsame]
        split at hstep
        case h_1 =>
          split at hstep
          case isFalse => cases hstep
          case isTrue =>
            obtain rfl := Option.some.inj hstep
            exact hkeep (Client.Asked.of_before rfl) rfl
        case h_2 =>
          obtain rfl := Option.some.inj hstep
          refine hkeep (Client.Asked.of_before ?_) rfl
          rw [Client.goto]
          split <;> rfl
        case h_3 | h_4 | h_5 =>
          obtain rfl := Option.some.inj hstep
          exact hkeep (Client.Asked.of_before rfl) rfl
        case h_6 =>
          obtain ⟨k', hk', rfl⟩ := Option.map_eq_some_iff.mp hstep
          exact hkeep ((hall h _ hk).step hpc hk') rfl

theorem AllAsked.step {ev : NegotiationEvent} (hall : AllAsked st start)
    (hstep : negotiationStep st ev = some st') : AllAsked st' (recordRequest st ev start) := by
  cases ev with
  | client h ok => exact hall.stepClient hstep
  | accept h sent =>
      simp only [negotiationStep] at hstep
      split at hstep
      case h_1 =>
        obtain rfl := Option.some.inj hstep
        have hnew : (Client.mk sent 0 .version).Asked (start h) := .of_before rfl
        have hset : AllAsked (st.setClient h ⟨sent, 0, .version⟩) (Function.update start h (start h)) :=
          hall.setClient hnew rfl
        rwa [Function.update_eq_self] at hset
      case h_2 => cases hstep
  | setAuth c x =>
      simp only [negotiationStep] at hstep
      split at hstep
      case h_1 =>
        obtain rfl := Option.some.inj hstep
        exact hall
      case h_2 | h_3 => cases hstep
  | setter c =>
      have hclient : st'.client = st.client := by
        simp only [negotiationStep, Negotiation.setterStep] at hstep
        split at hstep
        case h_1 => cases hstep
        case h_2 =>
          split at hstep
          · obtain rfl := Option.some.inj hstep
            rfl
          · cases hstep
        case h_3 | h_4 =>
          obtain rfl := Option.some.inj hstep
          rfl
      intro h k hk
      exact hall h k (hclient ▸ hk)

/-- The name that goes to the connector is the domain of the request up to its first NUL. -/
theorem connect_name {evs : List NegotiationEvent}
    (hrun : run (record negotiationStep recordRequest) (.init, fun _ => 0) evs = some (st, start))
    {h port : ℕ} {k : Client} {host : TargetHost} (hk : st.client h = some k)
    (hpc : k.pc = .connect host port) (hatyp : k.requestAtyp (start h) = socks5AtypDomain) :
    host = .name (content (k.requestDomain (start h) ++ [0])) := by
  have hall : AllAsked st start :=
    record_invariant (fun _ _ _ _ hp hstep => hp.step hstep) (fun h k hk => by cases hk) hrun
  have hasked := hall h k hk
  unfold Client.Asked at hasked
  rw [hpc] at hasked
  exact hasked hatyp

end FiveGProxy
