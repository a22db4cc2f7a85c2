import FiveGProxy.Protocol.Datagram

/-!
# Literal hosts

`IpLiteral.parse` gives a host that looks like a literal to `InetAddress.getByName`, and
`resolveWithCache` asks the cellular network about the others. The pattern is looser than a dotted
quad, and `getByName` looks up what is neither a literal nor contains a colon, on the default network.

The platform is not in the repository: what `\d` matches, which strings are IPv6 literals and what a
lookup answers are parameters.
-/

namespace FiveGProxy

/-- A lookup that leaves the device. -/
inductive NameQuery (N : Type*)
  /-- `InetAddress.getByName`, on the default network. -/
  | getByName (host : List Char)
  /-- `DnsResolver.query` -/
  | resolver (network : N) (host : List Char)
  | getAllByName (network : N) (host : List Char)

/-- The network that a query goes to; `none` is the default one. -/
def NameQuery.network {N : Type*} : NameQuery N → Option N
  | getByName _ => none
  | resolver network _ => some network
  | getAllByName network _ => some network

inductive ResolverOutcome
  | threw
  | timedOut
  | error
  | answer (res : List IpAddr)

/-- What the platform provides. -/
structure Platform (N : Type*) where
  /-- `\d` -/
  digit : Char → Bool
  digit_ascii : ∀ c, c.isDigit → digit c
  digit_dot : digit '.' = false
  digit_colon : digit ':' = false
  /-- The IPv6 literals. -/
  ipv6 : List Char → Option IpAddr
  ipv6_colon : ∀ host a, ipv6 host = some a → ':' ∈ host
  /-- What a lookup of `getByName` ends with; `none` is an exception. -/
  byName : List Char → Option IpAddr
  lowercase : List Char → List Char
  sdkInt : ℤ
  resolver : N → List Char → ResolverOutcome
  /-- `none` is an exception or no answer within a second. -/
  allByName : N → List Char → Option (List IpAddr)

/-! ### The grammar of a dotted quad -/

def decimal (part : List Char) : ℕ :=
  part.foldl (fun n c => 10 * n + (c.toNat - '0'.toNat)) 0

def shortPart (digit : Char → Bool) (part : List Char) : Bool :=
  1 ≤ part.length && part.length ≤ 3 && part.all digit

def octet (part : List Char) : Option UInt8 :=
  if shortPart Char.isDigit part ∧ decimal part ≤ 255 then some (UInt8.ofNat (decimal part)) else none

def dottedQuad (host : List Char) : Option IpAddr :=
  match host.splitOn '.' with
  | [a, b, c, d] => do
      let a ← octet a
      let b ← octet b
      let c ← octet c
      let d ← octet d
      return .v4 (octets a b c d)
  | _ => none

namespace IpLiteral

/-- `IPV4_RE.matches(host)` -/
def ipv4Re (digit : Char → Bool) (host : List Char) : Bool :=
  match host.splitOn '.' with
  | [a, b, c, d] => shortPart digit a && shortPart digit b && shortPart digit c && shortPart digit d
  | _ => false

end IpLiteral

section

variable {N : Type*} (p : Platform N)

/-- The address, or `none` for an exception, and the lookups. -/
def Platform.getByName (host : List Char) : Option IpAddr × List (NameQuery N) :=
  match dottedQuad host with
  | some a => (some a, [])
  | none =>
      if ':' ∈ host then (p.ipv6 host, [])
      else (p.byName host, [.getByName host])

def IpLiteral.parse (host : List Char) : Option IpAddr × List (NameQuery N) :=
  let looksLikeIpv4 := ipv4Re p.digit host
  let looksLikeIpv6 := decide (':' ∈ host)
  if !looksLikeIpv4 && !looksLikeIpv6 then (none, [])
  else p.getByName host

/-! ### The resolution of a host -/

namespace IpAddr

def isAnyLocalAddress (a : IpAddr) : Bool := a.bytes.all (· = 0)

theorem zero_lt_v4 : 0 < 4 := by decide

theorem one_lt_v4 : 1 < 4 := by decide

theorem zero_lt_v6 : 0 < 16 := by decide

theorem one_lt_v6 : 1 < 16 := by decide

def isLoopbackAddress : IpAddr → Bool
  | v4 bytes => getElem bytes 0 zero_lt_v4 = 127
  | v6 bytes => bytes.toList = List.replicate 15 0 ++ [1]

def isLinkLocalAddress : IpAddr → Bool
  | v4 bytes => getElem bytes 0 zero_lt_v4 = 169 && getElem bytes 1 one_lt_v4 = 254
  | v6 bytes =>
      getElem bytes 0 zero_lt_v6 = 0xfe && getElem bytes 1 one_lt_v6 &&& 0xc0 = 0x80

def isIpv6 : IpAddr → Bool
  | v4 _ => false
  | v6 _ => true

end IpAddr

/-- `sortedBy` is stable. -/
def orderIpv6First (addresses : List IpAddr) : List IpAddr :=
  addresses.filter (·.isIpv6) ++ addresses.filter (!·.isIpv6)

def usableIpv6First (addresses : List IpAddr) : List IpAddr :=
  orderIpv6First (addresses.filter
    fun a => !(a.isAnyLocalAddress || a.isLoopbackAddress || a.isLinkLocalAddress))

def resolveWithDnsResolver (network : N) (host : List Char) :
    Option (List IpAddr) × List (NameQuery N) :=
  (match p.resolver network host with
    | .threw => none
    | .timedOut => none
    | .error => some []
    | .answer res => some (usableIpv6First res), [.resolver network host])

/-- `acquired` is the result of `dnsConcurrency.tryAcquire`, and `runs` says whether a thread of
`dnsExecutor` takes the task or it is dropped. -/
def doResolve (acquired runs : Bool) (network : N) (host : List Char) :
    List IpAddr × List (NameQuery N) :=
  if !acquired then ([], [])
  else if p.sdkInt ≥ 29 then
    let (res, queries) := resolveWithDnsResolver p network host
    (res.getD [], queries)
  else if runs then
    (((p.allByName network host).map usableIpv6First).getD [], [.getAllByName network host])
  else ([], [])

/-- How `dnsCache.lookup` comes to its answer: from the cache, at once or after a wait, or as the
leader that calls `resolve`. -/
inductive LookupTurn
  | served (addresses : List IpAddr)
  | leads (acquired runs : Bool)

/-- `turn` is what the cache does for a key. -/
def resolveWithCache (turn : List Char → LookupTurn) (network : N) (host : List Char) :
    List IpAddr × List (NameQuery N) :=
  match IpLiteral.parse p host with
  | (some a, queries) => ([a], queries)
  | (none, queries) =>
      match turn (p.lowercase host) with
      | .served addresses => (addresses, queries)
      | .leads acquired runs =>
          let (addresses, more) := doResolve p acquired runs network host
          (addresses, queries ++ more)

end

/-! ### The pattern -/

theorem shortPart_of_digits {digit : Char → Bool} (h : ∀ c, c.isDigit → digit c) {part : List Char}
    (hpart : shortPart Char.isDigit part) : shortPart digit part := by
  simp only [shortPart, Bool.and_eq_true, List.all_eq_true] at hpart ⊢
  exact ⟨hpart.1, fun c hc => h c (hpart.2 c hc)⟩

theorem not_mem_of_shortPart {digit : Char → Bool} {c : Char} (hc : digit c = false)
    {part : List Char} (hpart : shortPart digit part) : c ∉ part := by
  simp only [shortPart, Bool.and_eq_true, List.all_eq_true] at hpart
  intro hmem
  have := hpart.2 c hmem
  rw [hc] at this
  exact Bool.false_ne_true this

theorem shortPart_of_octet {part : List Char} {b : UInt8} (h : octet part = some b) :
    shortPart Char.isDigit part := by
  unfold octet at h
  split at h
  case isTrue hpart => exact hpart.1
  case isFalse => exact nomatch h

/-- `matches` asks for four short parts with a dot between them. -/
theorem ipv4Re_iff {digit : Char → Bool} (hdot : digit '.' = false) (host : List Char) :
    IpLiteral.ipv4Re digit host ↔ ∃ a b c d, host = a ++ '.' :: (b ++ '.' :: (c ++ '.' :: d)) ∧
      shortPart digit a ∧ shortPart digit b ∧ shortPart digit c ∧ shortPart digit d := by
  constructor
  · intro h
    unfold IpLiteral.ipv4Re at h
    split at h
    case h_1 a b c d hsplit =>
      simp only [Bool.and_eq_true] at h
      refine ⟨a, b, c, d, ?_, h.1.1.1, h.1.1.2, h.1.2, h.2⟩
      have hjoin : ['.'].intercalate (host.splitOn '.') = host := List.intercalate_splitOn '.'
      rw [hsplit] at hjoin
      rw [← hjoin]
      simp [List.intercalate]
    case h_2 => exact absurd h Bool.false_ne_true
  · rintro ⟨a, b, c, d, rfl, ha, hb, hc, hd⟩
    have hsplit : (a ++ '.' :: (b ++ '.' :: (c ++ '.' :: d))).splitOn '.' = [a, b, c, d] := by
      have hdots : ∀ l ∈ [a, b, c, d], '.' ∉ l := by
        simp only [List.mem_cons, List.not_mem_nil, or_false]
        rintro l (rfl | rfl | rfl | rfl) <;> exact not_mem_of_shortPart hdot ‹_›
      rw [← List.splitOn_intercalate '.' hdots (by simp)]
      simp [List.intercalate]
    simp [IpLiteral.ipv4Re, hsplit, ha, hb, hc, hd]

theorem not_mem_of_ipv4Re {digit : Char → Bool} (hdot : digit '.' = false)
    (hcolon : digit ':' = false) {host : List Char} (h : IpLiteral.ipv4Re digit host) :
    ':' ∉ host := by
  obtain ⟨a, b, c, d, rfl, ha, hb, hc, hd⟩ := (ipv4Re_iff hdot host).mp h
  simp [not_mem_of_shortPart hcolon ha, not_mem_of_shortPart hcolon hb,
    not_mem_of_shortPart hcolon hc, not_mem_of_shortPart hcolon hd]

theorem ipv4Re_of_dottedQuad {digit : Char → Bool} (h : ∀ c, c.isDigit → digit c) {host : List Char}
    {a : IpAddr} (hquad : dottedQuad host = some a) : IpLiteral.ipv4Re digit host := by
  unfold dottedQuad at hquad
  unfold IpLiteral.ipv4Re
  split at hquad
  case h_2 => exact nomatch hquad
  case h_1 w x y z hsplit =>
    simp only [Option.bind_eq_bind, Option.bind_eq_some_iff] at hquad
    obtain ⟨_, hw, _, hx, _, hy, _, hz, -⟩ := hquad
    simp only [Bool.and_eq_true]
    exact ⟨⟨⟨shortPart_of_digits h (shortPart_of_octet hw), shortPart_of_digits h
      (shortPart_of_octet hx)⟩, shortPart_of_digits h (shortPart_of_octet hy)⟩,
      shortPart_of_digits h (shortPart_of_octet hz)⟩

/-! ### What leaves the device -/

section

variable {N : Type*} {p : Platform N} {host : List Char}

theorem parse_of_dottedQuad {a : IpAddr} (h : dottedQuad host = some a) :
    IpLiteral.parse p host = (some a, []) := by
  simp [IpLiteral.parse, ipv4Re_of_dottedQuad p.digit_ascii h, Platform.getByName, h]

theorem parse_of_not_ipv4Re (h : IpLiteral.ipv4Re p.digit host = false) :
    IpLiteral.parse p host = (p.ipv6 host, []) := by
  have hquad : dottedQuad host = none := by
    cases hquad : dottedQuad host with
    | none => rfl
    | some a => exact absurd (ipv4Re_of_dottedQuad p.digit_ascii hquad) (by simp [h])
  by_cases hcolon : ':' ∈ host
  · simp [IpLiteral.parse, h, hcolon, Platform.getByName, hquad]
  · have hipv6 : p.ipv6 host = none := by
      cases hipv6 : p.ipv6 host with
      | none => rfl
      | some a => exact absurd (p.ipv6_colon host a hipv6) hcolon
    simp [IpLiteral.parse, h, hcolon, hipv6]

/-- The pattern lets through what `getByName` has to look up. -/
theorem parse_of_ipv4Re (h : IpLiteral.ipv4Re p.digit host) (hquad : dottedQuad host = none) :
    IpLiteral.parse p host = (p.byName host, [.getByName host]) := by
  simp [IpLiteral.parse, h, Platform.getByName, hquad,
    not_mem_of_ipv4Re p.digit_dot p.digit_colon h]

theorem network_of_mem_doResolve {acquired runs : Bool} {network : N} {q : NameQuery N}
    (hq : q ∈ (doResolve p acquired runs network host).2) : q.network = some network := by
  unfold doResolve at hq
  split_ifs at hq
  · exact nomatch hq
  · rw [List.mem_singleton.mp hq]
    rfl
  · rw [List.mem_singleton.mp hq]
    rfl
  · exact nomatch hq

theorem network_of_mem_resolveWithCache (hparse : (IpLiteral.parse p host).2 = [])
    {turn : List Char → LookupTurn} {network : N} {q : NameQuery N}
    (hq : q ∈ (resolveWithCache p turn network host).2) : q.network = some network := by
  unfold resolveWithCache at hq
  split at hq
  case h_1 a queries heq =>
    rw [heq] at hparse
    exact absurd hq (by simp [show queries = [] from hparse])
  case h_2 queries heq =>
    rw [heq] at hparse
    obtain rfl : queries = [] := hparse
    split at hq
    · exact nomatch hq
    · exact network_of_mem_doResolve ((List.mem_append.mp hq).resolve_left List.not_mem_nil)

variable (p host)

/-- The host is told apart without a lookup, and only the cellular network hears of a name. -/
structure LiteralsStayLocal : Prop where
  quiet : (IpLiteral.parse p host).2 = []
  ipv4 : ∀ a, dottedQuad host = some a → (IpLiteral.parse p host).1 = some a
  ipv6 : ∀ a, p.ipv6 host = some a → (IpLiteral.parse p host).1 = some a
  name : dottedQuad host = none → p.ipv6 host = none → (IpLiteral.parse p host).1 = none
  cellular : dottedQuad host = none → p.ipv6 host = none →
    ∀ (turn : List Char → LookupTurn) (network : N),
      ∀ q ∈ (resolveWithCache p turn network host).2, q.network = some network

/-- Literals stay local, and names on the cellular network, exactly at the hosts that are dotted quads
if they match the pattern. -/
theorem literalsStayLocal_iff :
    LiteralsStayLocal p host ↔ (IpLiteral.ipv4Re p.digit host → (dottedQuad host).isSome) := by
  constructor
  · intro h hre
    by_contra hquad
    have hparse := parse_of_ipv4Re hre (Option.not_isSome_iff_eq_none.mp hquad)
    exact List.cons_ne_nil _ _ ((congrArg Prod.snd hparse).symm.trans h.quiet)
  · intro h
    cases hquad : dottedQuad host with
    | some a =>
        have hparse := parse_of_dottedQuad (p := p) hquad
        have hcolon : ':' ∉ host :=
          not_mem_of_ipv4Re p.digit_dot p.digit_colon (ipv4Re_of_dottedQuad p.digit_ascii hquad)
        exact {
          quiet := by rw [hparse]
          ipv4 := fun b hb => by rw [hparse, ← hb, hquad]
          ipv6 := fun b hb => absurd (p.ipv6_colon host b hb) hcolon
          name := fun hnone => absurd (hquad.symm.trans hnone) (Option.some_ne_none a)
          cellular := fun hnone => absurd (hquad.symm.trans hnone) (Option.some_ne_none a) }
    | none =>
        have hre : IpLiteral.ipv4Re p.digit host = false := by
          by_contra hre
          exact absurd (h (Bool.eq_true_of_not_eq_false hre)) (by simp [hquad])
        have hparse := parse_of_not_ipv4Re hre
        exact {
          quiet := by rw [hparse]
          ipv4 := fun b hb => absurd (hquad.symm.trans hb) (Option.some_ne_none b).symm
          ipv6 := fun b hb => by rw [hparse, hb]
          name := fun _ hnone => by rw [hparse, hnone]
          cellular := fun _ _ turn network q hq =>
            network_of_mem_resolveWithCache (by rw [hparse]) hq }

end

/-- A device that knows the literal `::1`, with the cellular network as its only other one. -/
def handset : Platform Unit where
  digit := Char.isDigit
  digit_ascii := fun _ h => h
  digit_dot := rfl
  digit_colon := rfl
  ipv6 host :=
    if host = [':', ':', '1'] then some (.v6 #v[0, 0, 0, 0, 0, 0, 0, 0, 0, 0, 0, 0, 0, 0, 0, 1])
    else none
  ipv6_colon host a h := by
    by_cases hhost : host = [':', ':', '1']
    · rw [hhost]
      decide
    · rw [if_neg hhost] at h
      exact nomatch h
  byName _ := none
  lowercase := List.map Char.toLower
  sdkInt := 35
  resolver _ _ := .error
  allByName _ _ := none

/-- `999.999.1.1` matches the pattern, and its lookup goes to the default network. -/
theorem out_of_range_quad_leaks :
    (IpLiteral.parse handset
        ['9', '9', '9', '.', '9', '9', '9', '.', '1', '.', '1']).2.map NameQuery.network = [none] ∧
      ¬ LiteralsStayLocal handset ['9', '9', '9', '.', '9', '9', '9', '.', '1', '.', '1'] := by
  have hleak : (IpLiteral.parse handset
      ['9', '9', '9', '.', '9', '9', '9', '.', '1', '.', '1']).2.map NameQuery.network = [none] := by
    decide +kernel
  refine ⟨hleak, fun h => ?_⟩
  rw [h.quiet] at hleak
  exact nomatch hleak

end FiveGProxy
