import Mathlib.Data.Nat.Notation
import Mathlib.Data.List.Basic
import Mathlib.Logic.Basic

/-!
# Two encodings of UTF-16 text

A string is a list of UTF-16 code units. `encode s` is its standard UTF-8 form, in which a surrogate
without a partner is replaced by a question mark; `modified s` is the form that encodes each code
unit for itself and writes the code unit `0` in two bytes, so that no byte of it is `0`. The two agree
on the strings of plain code units only, and on other strings the first is not even a prefix of the
second.
-/

namespace Utf8

def IsHigh (c : UInt16) : Prop := 0xD800 ≤ c.toNat ∧ c.toNat < 0xDC00

def IsLow (c : UInt16) : Prop := 0xDC00 ≤ c.toNat ∧ c.toNat < 0xE000

def IsSurrogate (c : UInt16) : Prop := 0xD800 ≤ c.toNat ∧ c.toNat < 0xE000

instance (c : UInt16) : Decidable (IsHigh c) := inferInstanceAs (Decidable (_ ∧ _))

instance (c : UInt16) : Decidable (IsLow c) := inferInstanceAs (Decidable (_ ∧ _))

instance (c : UInt16) : Decidable (IsSurrogate c) := inferInstanceAs (Decidable (_ ∧ _))

def Plain (c : UInt16) : Prop := c ≠ 0 ∧ ¬IsSurrogate c

instance (c : UInt16) : Decidable (Plain c) := inferInstanceAs (Decidable (_ ∧ _))

/-- The one, two or three bytes for a number below `0x10000`. -/
def bytes (n : ℕ) : List UInt8 :=
  if n < 0x80 then [UInt8.ofNat n]
  else if n < 0x800 then [UInt8.ofNat (0xC0 + n / 0x40), UInt8.ofNat (0x80 + n % 0x40)]
  else
    [UInt8.ofNat (0xE0 + n / 0x1000), UInt8.ofNat (0x80 + n / 0x40 % 0x40),
      UInt8.ofNat (0x80 + n % 0x40)]

def scalar (hi lo : UInt16) : ℕ := 0x10000 + (hi.toNat - 0xD800) * 0x400 + (lo.toNat - 0xDC00)

/-- The four bytes for a number from `0x10000` on. -/
def fourBytes (n : ℕ) : List UInt8 :=
  [UInt8.ofNat (0xF0 + n / 0x40000), UInt8.ofNat (0x80 + n / 0x1000 % 0x40),
    UInt8.ofNat (0x80 + n / 0x40 % 0x40), UInt8.ofNat (0x80 + n % 0x40)]

def encodeUnit (c : UInt16) : List UInt8 := if IsSurrogate c then [0x3F] else bytes c.toNat

def encode : List UInt16 → List UInt8
  | [] => []
  | [c] => encodeUnit c
  | c :: d :: s =>
      if IsHigh c ∧ IsLow d then fourBytes (scalar c d) ++ encode s
      else encodeUnit c ++ encode (d :: s)

def modifiedUnit (c : UInt16) : List UInt8 := if c = 0 then [0xC0, 0x80] else bytes c.toNat

def modified (s : List UInt16) : List UInt8 := s.flatMap modifiedUnit

@[simp] theorem modified_nil : modified [] = [] := rfl

@[simp] theorem modified_cons (c : UInt16) (s : List UInt16) :
    modified (c :: s) = modifiedUnit c ++ modified s := rfl

variable {c d : UInt16} {s : List UInt16}

/-! ### The bytes of one code unit -/

theorem encodeUnit_of_plain (h : Plain c) : encodeUnit c = bytes c.toNat := if_neg h.2

theorem modifiedUnit_of_plain (h : Plain c) : modifiedUnit c = bytes c.toNat := if_neg h.1

theorem ofNat_ne_zero {n : ℕ} (h0 : 0 < n) (h : n < 256) : UInt8.ofNat n ≠ 0 := by
  intro heq
  have hmod : n % 2 ^ 8 = 0 := by
    rw [← UInt8.toNat_ofNat', heq]
    rfl
  omega

theorem zero_notMem_bytes {n : ℕ} (h0 : 0 < n) (h : n < 0x10000) : (0 : UInt8) ∉ bytes n := by
  unfold bytes
  split_ifs
  · simpa using (ofNat_ne_zero h0 (by omega)).symm
  · simp only [List.mem_cons, List.not_mem_nil, or_false, not_or]
    exact ⟨(ofNat_ne_zero (by omega) (by omega)).symm, (ofNat_ne_zero (by omega) (by omega)).symm⟩
  · simp only [List.mem_cons, List.not_mem_nil, or_false, not_or]
    exact ⟨(ofNat_ne_zero (by omega) (by omega)).symm, (ofNat_ne_zero (by omega) (by omega)).symm,
      (ofNat_ne_zero (by omega) (by omega)).symm⟩

theorem zero_notMem_modifiedUnit (c : UInt16) : (0 : UInt8) ∉ modifiedUnit c := by
  unfold modifiedUnit
  split
  case isTrue => decide
  case isFalse hc =>
    refine zero_notMem_bytes (Nat.pos_of_ne_zero fun h => hc ?_) c.toNat_lt
    exact UInt16.toNat_inj.mp h

theorem modifiedUnit_ne_nil (c : UInt16) : modifiedUnit c ≠ [] := by
  unfold modifiedUnit bytes
  split_ifs <;> nofun

theorem IsHigh.isSurrogate (h : IsHigh c) : IsSurrogate c := ⟨h.1, Nat.lt_trans h.2 (by decide)⟩

theorem modifiedUnit_of_surrogate (h : IsSurrogate c) : ∃ t, modifiedUnit c = 0xED :: t := by
  obtain ⟨hlow, hhigh⟩ := h
  have hc : c ≠ 0 := by
    rintro rfl
    exact absurd hlow (by decide)
  have hhead : 0xE0 + c.toNat / 0x1000 = 0xED := by omega
  rw [modifiedUnit, if_neg hc, bytes, if_neg (by omega), if_neg (by omega), hhead]
  exact ⟨_, rfl⟩

theorem fourBytes_head (hc : IsHigh c) (hd : IsLow d) :
    ∃ b t, fourBytes (scalar c d) = b :: t ∧ b ≠ 0xED := by
  refine ⟨_, _, rfl, fun heq => ?_⟩
  obtain ⟨hc, hc'⟩ := hc
  obtain ⟨hd, hd'⟩ := hd
  have hmod : (0xF0 + scalar c d / 0x40000) % 2 ^ 8 = 0xED := by
    rw [← UInt8.toNat_ofNat', heq]
    rfl
  unfold scalar at hmod
  omega

/-! ### Strings -/

theorem zero_notMem_modified (s : List UInt16) : (0 : UInt8) ∉ modified s := by
  intro h
  obtain ⟨c, -, hc⟩ := List.mem_flatMap.mp h
  exact zero_notMem_modifiedUnit c hc

theorem modified_ne_nil (h : s ≠ []) : modified s ≠ [] := by
  cases s with
  | nil => exact absurd rfl h
  | cons c s =>
      intro hnil
      rw [modified_cons, List.append_eq_nil_iff] at hnil
      exact modifiedUnit_ne_nil c hnil.1

theorem encode_eq_modified (h : ∀ c ∈ s, Plain c) : encode s = modified s := by
  induction s using encode.induct with
  | case1 => rfl
  | case2 c =>
      have hc : Plain c := h c List.mem_cons_self
      rw [encode, encodeUnit_of_plain hc, modified_cons, modifiedUnit_of_plain hc, modified_nil,
        List.append_nil]
  | case3 c d s hpair ih =>
      exact absurd hpair.1.isSurrogate (h c List.mem_cons_self).2
  | case4 c d s hpair ih =>
      have hc : Plain c := h c List.mem_cons_self
      rw [encode, if_neg hpair, encodeUnit_of_plain hc, modified_cons, modifiedUnit_of_plain hc,
        ih fun e he => h e (List.mem_cons_of_mem c he)]

theorem plain_of_encodeUnit_agrees {t t' : List UInt8}
    (h : encodeUnit c ++ t <+: modifiedUnit c ++ t') : Plain c ∧ t <+: t' := by
  by_cases hc : Plain c
  · rw [encodeUnit_of_plain hc, modifiedUnit_of_plain hc] at h
    exact ⟨hc, (List.prefix_append_right_inj _).mp h⟩
  · exfalso
    by_cases hs : IsSurrogate c
    · obtain ⟨t'', ht''⟩ := modifiedUnit_of_surrogate hs
      rw [ht'', encodeUnit, if_pos hs] at h
      exact absurd (List.cons_prefix_cons.mp h).1 (by decide)
    · obtain rfl : c = 0 := Decidable.byContradiction fun hne => hc ⟨hne, hs⟩
      exact absurd (List.cons_prefix_cons.mp h).1 (by decide)

theorem plain_of_encode_agrees (h : encode s <+: modified s) : ∀ c ∈ s, Plain c := by
  induction s using encode.induct with
  | case1 => nofun
  | case2 c =>
      rw [encode, ← List.append_nil (encodeUnit c)] at h
      exact List.forall_mem_singleton.mpr (plain_of_encodeUnit_agrees h).1
  | case3 c d s hpair ih =>
      obtain ⟨b, t, hb, hne⟩ := fourBytes_head hpair.1 hpair.2
      obtain ⟨t', ht'⟩ := modifiedUnit_of_surrogate hpair.1.isSurrogate
      rw [encode, if_pos hpair, hb, modified_cons, ht'] at h
      exact absurd (List.cons_prefix_cons.mp h).1 hne
  | case4 c d s hpair ih =>
      rw [encode, if_neg hpair, modified_cons] at h
      obtain ⟨hc, hrest⟩ := plain_of_encodeUnit_agrees h
      exact List.forall_mem_cons.mpr ⟨hc, ih hrest⟩

/-- Where the standard form is not longer than the room, it is what the room keeps of the modified
form exactly when the string is plain. -/
theorem encode_eq_take_iff {n : ℕ} (h : (encode s).length ≤ n) :
    encode s = (modified s).take n ↔ ∀ c ∈ s, Plain c := by
  constructor
  · intro heq
    apply plain_of_encode_agrees
    rw [heq]
    exact List.take_prefix n _
  · intro hplain
    rw [encode_eq_modified hplain] at h ⊢
    exact (List.take_of_length_le h).symm

end Utf8
