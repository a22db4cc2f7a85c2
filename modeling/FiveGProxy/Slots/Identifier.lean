import FiveGProxy.Config
import Mathlib.Data.Int.Notation
import Mathlib.Data.Nat.Notation
import Mathlib.Logic.Basic
import Mathlib.Algebra.Group.Nat.Defs

/-!
# Event identifiers

An epoll registration carries 64 bits: the generation of the slot in the upper half, the index of
the slot in the lower half, and the role of the descriptor in the top bits of the lower half
(`conn_state.h`, `udp_conn.h`). An event brings them back. `conn_event_check_slot` and
`udp_event_check_slot` decide from the fields of the slot whether it is to be processed.

The TCP and the UDP engine are two instances of one design; `Engine` selects the instance.
-/

namespace FiveGProxy

inductive Engine
  | tcp
  | udp
  deriving DecidableEq, Repr

/-- Which descriptor of a connection an event is about: `is_target` and `udp_fd_role_t`. -/
inductive FdRole
  | client
  | target
  | localUdp
  | remoteUdp
  deriving DecidableEq, Repr

inductive EventDisp
  | process
  | inactive
  | stale
  | wrongWorker
  | notReady
  deriving DecidableEq, Repr

abbrev connMagic : BitVec 32 := 0x5EEDF00D#32
abbrev udpConnMagic : BitVec 32 := 0x5EEDF00E#32

abbrev connEvTargetFlag : BitVec 64 := 1#64 <<< 31
abbrev udpEvRoleLocalFlag : BitVec 64 := 1#64 <<< 31
abbrev udpEvRoleRemoteFlag : BitVec 64 := 1#64 <<< 30
abbrev udpEvRoleMask : BitVec 64 := udpEvRoleLocalFlag ||| udpEvRoleRemoteFlag
abbrev udpEvDnsWake : BitVec 64 := 0xFFFFFFFFFFFFFFFF#64

/-- `(gen << 32) | slot`. -/
def epKey (gen : BitVec 32) (slot : ℕ) : BitVec 64 :=
  gen.setWidth 64 <<< 32 ||| (BitVec.ofNat 32 slot).setWidth 64

/-- `(uint32_t)(key & 0xFFFFFFFF)`. -/
def keySlot (key : BitVec 64) : BitVec 32 := (key &&& 0xFFFFFFFF#64).setWidth 32

/-- `(uint32_t)(key >> 32)`. -/
def keyGen (key : BitVec 64) : BitVec 32 := (key >>> 32).setWidth 32

/-- An identifier taken apart. -/
structure EventKey where
  sidx : BitVec 32
  egen : BitVec 32
  role : FdRole
  deriving DecidableEq, Repr

def connEventDecode (raw : BitVec 64) : EventKey :=
  let key := raw &&& ~~~connEvTargetFlag
  { sidx := keySlot key
    egen := keyGen key
    role := if raw &&& connEvTargetFlag ≠ 0#64 then .target else .client }

def udpEventDecode (raw : BitVec 64) : EventKey :=
  let roleBits := raw &&& udpEvRoleMask
  let key := raw &&& ~~~udpEvRoleMask
  { sidx := keySlot key
    egen := keyGen key
    role :=
      if roleBits = udpEvRoleLocalFlag then .localUdp
      else if roleBits = udpEvRoleRemoteFlag then .remoteUdp
      else .client }

def udpEventIsDnsWake (raw : BitVec 64) : Bool := decide (raw = udpEvDnsWake)

/-- `conn_event_bad_slot` and `udp_event_bad_slot`. -/
def eventBadSlot (sidx : ℤ) (slotCount : ℕ) : Bool := decide (sidx < 0) || decide (slotCount ≤ sidx)

def connEventCheckSlot (egen genNow magic : BitVec 32) (slotState : Bool) (widx myWidx : ℕ)
    (closed registered : Bool) : EventDisp :=
  if !slotState then .inactive
  else if egen ≠ genNow ∨ magic ≠ connMagic then .stale
  else if widx ≠ myWidx then .wrongWorker
  else if closed || !registered then .notReady
  else .process

def udpEventCheckSlot (egen genNow magic : BitVec 32) (slotState closed registered : Bool) :
    EventDisp :=
  if !slotState then .inactive
  else if egen ≠ genNow ∨ magic ≠ udpConnMagic then .stale
  else if closed || !registered then .notReady
  else .process

namespace Engine

def slotCount : Engine → ℕ
  | tcp => connSlotCount
  | udp => udpSlotCount

def workerCount : Engine → ℕ
  | tcp => FiveGProxy.workerCount
  | udp => udpWorkerCount

def magic : Engine → BitVec 32
  | tcp => connMagic
  | udp => udpConnMagic

/-- The bits that an identifier carries besides the generation and the slot. -/
def roleFlag : Engine → FdRole → BitVec 64
  | tcp, .target => connEvTargetFlag
  | udp, .localUdp => udpEvRoleLocalFlag
  | udp, .remoteUdp => udpEvRoleRemoteFlag
  | _, _ => 0#64

/-- The roles of the descriptors of a connection, in the order of their registration: client and
target for TCP, and one list for each of the two UDP commands. -/
def roleLists : Engine → List (List FdRole)
  | tcp => [[.client, .target]]
  | udp => [[.client, .localUdp, .remoteUdp], [.client, .remoteUdp]]

def decode : Engine → BitVec 64 → EventKey
  | tcp => connEventDecode
  | udp => udpEventDecode

def roleMask : Engine → BitVec 64
  | tcp => connEvTargetFlag
  | udp => udpEvRoleMask

end Engine

/-! ### Bits of an identifier -/

theorem getLsbD_epKey (gen : BitVec 32) (s : ℕ) {i : ℕ} (hi : i < 64) :
    (epKey gen s).getLsbD i = if i < 32 then s.testBit i else gen.getLsbD (i - 32) := by
  by_cases h : i < 32
  · simp [epKey, BitVec.getLsbD_ofNat, h, hi, -BitVec.getLsbD_eq_getElem]
  · simp [epKey, BitVec.getLsbD_ofNat, h, hi, -BitVec.getLsbD_eq_getElem]
    omega

theorem getLsbD_flag {k : ℕ} (hk : k < 64) (i : ℕ) :
    (1#64 <<< k).getLsbD i = decide (i = k) := by
  simp only [BitVec.getLsbD_shiftLeft, BitVec.getLsbD_one]
  grind

theorem getLsbD_lowHalf (i : ℕ) : (0xFFFFFFFF#64).getLsbD i = decide (i < 32) := by
  rw [show 0xFFFFFFFF#64 = (BitVec.allOnes 32).setWidth 64 by decide, BitVec.getLsbD_setWidth,
    BitVec.getLsbD_allOnes]
  simp
  omega

theorem getLsbD_keySlot (key : BitVec 64) {i : ℕ} (hi : i < 32) :
    (keySlot key).getLsbD i = key.getLsbD i := by
  rw [keySlot, BitVec.getLsbD_setWidth, BitVec.getLsbD_and, getLsbD_lowHalf]
  simp [hi]

theorem getLsbD_keyGen (key : BitVec 64) {i : ℕ} (hi : i < 32) :
    (keyGen key).getLsbD i = key.getLsbD (32 + i) := by
  rw [keyGen, BitVec.getLsbD_setWidth, BitVec.getLsbD_ushiftRight]
  simp [hi]

section Mask

/-! The mask of the role bits covers the flag and no bit that the slot or the generation uses. -/

variable {gen : BitVec 32} {s : ℕ} {mask flag : BitVec 64}
  (hflag : ∀ i, flag.getLsbD i = true → mask.getLsbD i = true)
  (hmask : ∀ i, mask.getLsbD i = true → i < 32 ∧ s.testBit i = false)

include hflag hmask

theorem getLsbD_masked {i : ℕ} (hi : i < 64) :
    ((epKey gen s ||| flag) &&& ~~~mask).getLsbD i = (epKey gen s).getLsbD i := by
  rw [BitVec.getLsbD_and, BitVec.getLsbD_or, BitVec.getLsbD_not, getLsbD_epKey gen s hi]
  cases hm : mask.getLsbD i with
  | true => simp [hmask i hm]
  | false =>
      have : flag.getLsbD i = false :=
        Bool.eq_false_iff.mpr fun h => Bool.eq_false_iff.mp hm (hflag i h)
      rw [this, Bool.or_false, decide_eq_true hi]
      simp

theorem masked_eq : (epKey gen s ||| flag) &&& ~~~mask = epKey gen s :=
  BitVec.eq_of_getLsbD_eq fun _ hi => getLsbD_masked hflag hmask hi

theorem role_bits : (epKey gen s ||| flag) &&& mask = flag := by
  apply BitVec.eq_of_getLsbD_eq
  intro i hi
  rw [BitVec.getLsbD_and, BitVec.getLsbD_or, getLsbD_epKey gen s hi]
  cases hm : mask.getLsbD i with
  | true => simp [hmask i hm]
  | false =>
      have : flag.getLsbD i = false :=
        Bool.eq_false_iff.mpr fun h => Bool.eq_false_iff.mp hm (hflag i h)
      simp [this]

end Mask

theorem keySlot_epKey (gen : BitVec 32) (s : ℕ) : keySlot (epKey gen s) = BitVec.ofNat 32 s := by
  apply BitVec.eq_of_getLsbD_eq
  intro i hi
  rw [getLsbD_keySlot _ hi, getLsbD_epKey gen s (by omega), BitVec.getLsbD_ofNat]
  simp [hi]

theorem keyGen_epKey (gen : BitVec 32) (s : ℕ) : keyGen (epKey gen s) = gen := by
  apply BitVec.eq_of_getLsbD_eq
  intro i hi
  rw [getLsbD_keyGen _ hi, getLsbD_epKey gen s (by omega), if_neg (by omega),
    Nat.add_sub_cancel_left]

namespace Engine

theorem roleFlag_subset (e : Engine) (role : FdRole) {i : ℕ}
    (h : (e.roleFlag role).getLsbD i = true) : e.roleMask.getLsbD i = true := by
  cases e <;> cases role <;>
    simp_all only [roleFlag, roleMask, BitVec.getLsbD_or, BitVec.getLsbD_zero, Bool.or_true,
      Bool.true_or, reduceCtorEq]

theorem roleMask_disjoint (e : Engine) {s i : ℕ} (hs : s < e.slotCount)
    (h : e.roleMask.getLsbD i = true) : i < 32 ∧ s.testBit i = false := by
  have hi : i = 30 ∨ i = 31 := by
    cases e <;>
      simp only [roleMask, BitVec.getLsbD_or, getLsbD_flag (show 31 < 64 by decide),
        getLsbD_flag (show 30 < 64 by decide), Bool.or_eq_true, decide_eq_true_eq] at h <;>
      omega
  have hlt : s < 2 ^ 30 := by
    have : e.slotCount = 1088 := by cases e <;> rfl
    omega
  rcases hi with rfl | rfl
  · exact ⟨by decide, Nat.testBit_lt_two_pow hlt⟩
  · exact ⟨by decide, Nat.testBit_lt_two_pow (Nat.lt_trans hlt (by decide))⟩

theorem decode_epKey (e : Engine) {gen : BitVec 32} {s : ℕ} (hs : s < e.slotCount) {role : FdRole}
    (hrole : ∃ roles ∈ e.roleLists, role ∈ roles) :
    e.decode (epKey gen s ||| e.roleFlag role) = ⟨BitVec.ofNat 32 s, gen, role⟩ := by
  have hkey : (epKey gen s ||| e.roleFlag role) &&& ~~~e.roleMask = epKey gen s :=
    masked_eq (fun _ => e.roleFlag_subset role) fun _ => e.roleMask_disjoint hs
  have hbits : (epKey gen s ||| e.roleFlag role) &&& e.roleMask = e.roleFlag role :=
    role_bits (fun _ => e.roleFlag_subset role) fun _ => e.roleMask_disjoint hs
  obtain ⟨roles, hroles, hmem⟩ := hrole
  cases e with
  | tcp =>
      simp only [roleMask] at hkey hbits
      simp only [decode, connEventDecode, hkey, hbits, keySlot_epKey, keyGen_epKey]
      obtain rfl : roles = [.client, .target] := by simpa [roleLists] using hroles
      rcases (by simpa using hmem : role = .client ∨ role = .target) with rfl | rfl <;> rfl
  | udp =>
      simp only [roleMask] at hkey hbits
      simp only [decode, udpEventDecode, hkey, hbits, keySlot_epKey, keyGen_epKey]
      have : role = .client ∨ role = .localUdp ∨ role = .remoteUdp := by
        simp only [roleLists, List.mem_cons, List.not_mem_nil, or_false] at hroles
        rcases hroles with rfl | rfl <;> simp_all
        exact hmem.imp_right Or.inr
      rcases this with rfl | rfl | rfl <;> rfl

/-- Only generation 0 of slot 0 gives the identifier of the shutdown pipe. -/
theorem epKey_ne_zero {gen : BitVec 32} {s : ℕ} (hs : s < 2 ^ 32) (flag : BitVec 64)
    (h : s = 0 → gen ≠ 0) : epKey gen s ||| flag ≠ 0 := by
  intro hzero
  have hkey : epKey gen s = 0 := by
    apply BitVec.eq_of_getLsbD_eq
    intro i hi
    have := congrArg (fun raw => raw.getLsbD i) hzero
    simp_all
  have hgen : gen = 0 := by rw [← keyGen_epKey gen s, hkey]; rfl
  have hslot : BitVec.ofNat 32 s = 0 := by rw [← keySlot_epKey gen s, hkey]; rfl
  refine h ?_ hgen
  have hmod := congrArg BitVec.toNat hslot
  rwa [BitVec.toNat_ofNat, Nat.mod_eq_of_lt hs] at hmod

theorem epKey_ne_dnsWake (e : Engine) (gen : BitVec 32) {s : ℕ} (hs : s < e.slotCount)
    (role : FdRole) : epKey gen s ||| e.roleFlag role ≠ udpEvDnsWake := by
  intro h
  have hbit := congrArg (fun raw => raw.getLsbD 29) h
  have hslot : s.testBit 29 = false := by
    apply Nat.testBit_lt_two_pow
    have : e.slotCount = 1088 := by cases e <;> rfl
    omega
  have hflag : (e.roleFlag role).getLsbD 29 = false := by cases e <;> cases role <;> rfl
  simp only [BitVec.getLsbD_or, getLsbD_epKey gen s (show 29 < 64 by decide), hslot, hflag,
    if_pos (show 29 < 32 by decide)] at hbit
  exact absurd hbit (by decide)

end Engine

end FiveGProxy
