import Kv260Sigv.Parser.Recognition
import Kv260Sigv.Parser.Simulation

/-!
# Writing and reading counts

`encode_compact_u16` of both programs, and how it relates to
`decode_compact_u16`.  Both encoders write the base-128 digits of the count and
stop at the last one that is not zero (`digits`).  Both decoders read these
bytes back, at any offset, but they also read digits with zeros in front of
them, so a count has one minimal encoding and up to two redundant ones.
-/

set_option autoImplicit false

namespace Kv260Sigv

open Grammar Reader

namespace Daemon

theorem shiftRight_7_toNat (remaining : UInt16) :
    (remaining >>> 7).toNat = remaining.toNat / 128 := by
  rw [UInt16.toNat_shiftRight, Nat.shiftRight_eq_div_pow]
  rfl

/-- The `loop` of `encode_compact_u16`: the bytes pushed so far, and what
remains. -/
def encodeCompactU16Loop (encoded : Bytes) (remaining : UInt16) : Bytes :=
  let byte := (remaining &&& 0x7f).toUInt8
  if remaining >>> 7 ≠ 0 then
    encodeCompactU16Loop (encoded ++ [byte ||| 0x80]) (remaining >>> 7)
  else
    encoded ++ [byte]
termination_by remaining.toNat
decreasing_by
  rename_i hrest
  have hne : (remaining >>> 7).toNat ≠ 0 := fun h => hrest (UInt16.toNat_inj.mp h)
  rw [shiftRight_7_toNat] at hne ⊢
  omega

/-- `encode_compact_u16`. -/
def encodeCompactU16 (value : UInt16) : Bytes := encodeCompactU16Loop [] value

end Daemon

namespace Reference

/-- `ValueError(message)`. -/
structure ValueError where
  message : String
  deriving DecidableEq, Repr

/-- The `while True` loop of `encode_compact_u16`. -/
def encodeCompactU16Loop (encoded : Bytes) (remaining : ℕ) : Bytes :=
  let byte := remaining &&& 0x7f
  if remaining >>> 7 ≠ 0 then
    encodeCompactU16Loop (encoded ++ [UInt8.ofNat (byte ||| 0x80)]) (remaining >>> 7)
  else
    encoded ++ [UInt8.ofNat byte]
termination_by remaining
decreasing_by
  rename_i hrest
  rw [Nat.shiftRight_eq_div_pow] at hrest ⊢
  omega

/-- `encode_compact_u16`. -/
def encodeCompactU16 (value : ℤ) : Outcome ValueError Bytes :=
  if ¬ (0 ≤ value ∧ value ≤ 0xffff) then
    .err ⟨"compact-u16 value out of range"⟩
  else
    .ok (encodeCompactU16Loop [] value.toNat)

end Reference

namespace Grammar

/-! ### The digits of a count -/

/-- The base-128 digits of `n`, least significant first, every digit but the
last with the continuation bit, and no zero digit in the last place unless `n`
is zero. -/
def digits (n : ℕ) : Bytes :=
  if n < 128 then [UInt8.ofNat n] else UInt8.ofNat (n % 128 + 128) :: digits (n / 128)

theorem digits_of_lt {n : ℕ} (h : n < 128) : digits n = [UInt8.ofNat n] := by
  rw [digits, if_pos h]

theorem digits_of_ge {n : ℕ} (h : 128 ≤ n) :
    digits n = UInt8.ofNat (n % 128 + 128) :: digits (n / 128) := by
  rw [digits, if_neg (by omega)]

/-- An encoding with no zero digit to spare. -/
def Minimal (seg : Bytes) : Prop := seg.length = 1 ∨ seg.getLast? ≠ some 0

theorem toNat_ofNat {n : ℕ} (h : n < 256) : (UInt8.ofNat n).toNat = n := by
  rw [UInt8.toNat_ofNat']
  exact Nat.mod_eq_of_lt h

/-- The digits of a 16-bit count are an encoding of it. -/
theorem isCompactU16_digits {n : ℕ} (h : n < 65536) : IsCompactU16 n (digits n) := by
  by_cases h₁ : n < 128
  · have hone := @IsCompactU16.one (UInt8.ofNat n) (by rw [toNat_ofNat (by omega)]; exact h₁)
    rwa [toNat_ofNat (by omega), ← digits_of_lt h₁] at hone
  have hlow : (UInt8.ofNat (n % 128 + 128)).toNat = n % 128 + 128 := toNat_ofNat (by omega)
  rw [digits_of_ge (by omega)]
  by_cases h₂ : n / 128 < 128
  · rw [digits_of_lt h₂]
    have hmid : (UInt8.ofNat (n / 128)).toNat = n / 128 := toNat_ofNat (by omega)
    have htwo := @IsCompactU16.two (UInt8.ofNat (n % 128 + 128)) (UInt8.ofNat (n / 128))
      (by omega) (by omega)
    rw [hlow, hmid] at htwo
    rwa [show (n % 128 + 128) % 128 + 128 * (n / 128) = n by omega] at htwo
  · rw [digits_of_ge (by omega), digits_of_lt (by omega)]
    have hmid : (UInt8.ofNat (n / 128 % 128 + 128)).toNat = n / 128 % 128 + 128 :=
      toNat_ofNat (by omega)
    have hhigh : (UInt8.ofNat (n / 128 / 128)).toNat = n / 128 / 128 := toNat_ofNat (by omega)
    have hthree := @IsCompactU16.three (UInt8.ofNat (n % 128 + 128))
      (UInt8.ofNat (n / 128 % 128 + 128)) (UInt8.ofNat (n / 128 / 128))
      (by omega) (by omega) (by omega) (by omega)
    rw [hlow, hmid, hhigh] at hthree
    rwa [show (n % 128 + 128) % 128 + 128 * ((n / 128 % 128 + 128) % 128) +
      16384 * (n / 128 / 128) = n by omega] at hthree

/-- Among the encodings of a count, the digits are the minimal one. -/
theorem IsCompactU16.eq_digits_iff {n : ℕ} {seg : Bytes} (h : IsCompactU16 n seg) :
    seg = digits n ↔ Minimal seg := by
  cases h with
  | @one b₀ h₀ =>
      rw [digits_of_lt h₀, UInt8.ofNat_toNat]
      exact iff_of_true rfl (.inl rfl)
  | @two b₀ b₁ h₀ h₁ =>
      have hlt := b₀.toNat_lt
      by_cases hzero : b₁ = 0
      · subst hzero
        rw [digits_of_lt (by simp; omega)]
        exact iff_of_false (by simp) (by simp [Minimal])
      · have hpos : b₁.toNat ≠ 0 := fun h => hzero (UInt8.toNat_inj.mp h)
        rw [digits_of_ge (by omega), digits_of_lt (by omega)]
        refine iff_of_true ?_ (.inr (by simpa using hzero))
        rw [show (b₀.toNat % 128 + 128 * b₁.toNat) % 128 + 128 = b₀.toNat by omega,
          show (b₀.toNat % 128 + 128 * b₁.toNat) / 128 = b₁.toNat by omega,
          UInt8.ofNat_toNat, UInt8.ofNat_toNat]
  | @three b₀ b₁ b₂ h₀ h₁ h₂ hfit =>
      have hlt₀ := b₀.toNat_lt
      have hlt₁ := b₁.toNat_lt
      by_cases hzero : b₂ = 0
      · subst hzero
        refine iff_of_false (fun heq => ?_) (by simp [Minimal])
        -- below `2 ^ 14` there are at most two digits
        have hlen := congrArg List.length heq
        by_cases hsmall : b₀.toNat % 128 + 128 * (b₁.toNat % 128) < 128
        · rw [digits_of_lt (by simp; omega)] at hlen
          simp at hlen
        · rw [digits_of_ge (by simp; omega), digits_of_lt (by simp; omega)] at hlen
          simp at hlen
      · have hpos : b₂.toNat ≠ 0 := fun h => hzero (UInt8.toNat_inj.mp h)
        rw [digits_of_ge (by omega), digits_of_ge (by omega), digits_of_lt (by omega)]
        refine iff_of_true ?_ (.inr (by simpa using hzero))
        rw [show (b₀.toNat % 128 + 128 * (b₁.toNat % 128) + 16384 * b₂.toNat) % 128 + 128 =
            b₀.toNat by omega,
          show (b₀.toNat % 128 + 128 * (b₁.toNat % 128) + 16384 * b₂.toNat) / 128 % 128 + 128 =
            b₁.toNat by omega,
          show (b₀.toNat % 128 + 128 * (b₁.toNat % 128) + 16384 * b₂.toNat) / 128 / 128 =
            b₂.toNat by omega,
          UInt8.ofNat_toNat, UInt8.ofNat_toNat, UInt8.ofNat_toNat]

end Grammar

/-! ### The encoders write the digits -/

theorem nat_or_80 : ∀ n < 128, n ||| 0x80 = n + 128 := by decide +kernel

theorem Reference.encodeCompactU16Loop_eq (remaining : ℕ) :
    ∀ encoded, Reference.encodeCompactU16Loop encoded remaining = encoded ++ digits remaining := by
  induction remaining using Nat.strongRecOn with
  | ind remaining ih =>
      intro encoded
      have hbyte : remaining &&& 0x7f = remaining % 128 :=
        Nat.and_two_pow_sub_one_eq_mod remaining 7
      have hrest : remaining >>> 7 = remaining / 128 := Nat.shiftRight_eq_div_pow remaining 7
      rw [Reference.encodeCompactU16Loop]
      simp only [hbyte, hrest]
      by_cases hlast : remaining < 128
      · rw [if_neg (by omega), digits_of_lt hlast, Nat.mod_eq_of_lt hlast]
      · rw [if_pos (by omega), ih _ (by omega), digits_of_ge (show 128 ≤ remaining by omega),
          nat_or_80 _ (by omega), List.append_assoc]
        rfl

theorem Reference.encodeCompactU16_eq {n : ℕ} (h : n < 65536) :
    Reference.encodeCompactU16 n = .ok (digits n) := by
  rw [Reference.encodeCompactU16, if_neg (by omega), Reference.encodeCompactU16Loop_eq]
  rfl

/-- The byte the daemon's loop cuts off, against the unbounded one. -/
theorem Daemon.byte_toNat (remaining : UInt16) :
    (remaining &&& 0x7f).toUInt8.toNat = remaining.toNat % 128 := by
  have hand : (remaining &&& 0x7f).toNat = remaining.toNat % 128 := by
    rw [UInt16.toNat_and]
    exact Nat.and_two_pow_sub_one_eq_mod remaining.toNat 7
  rw [UInt16.toNat_toUInt8, hand]
  omega

/-- The daemon's loop runs in step with the reference's. -/
theorem Daemon.encodeCompactU16Loop_eq (encoded : Bytes) (remaining : UInt16) :
    Daemon.encodeCompactU16Loop encoded remaining = encoded ++ digits remaining.toNat := by
  induction encoded, remaining using Daemon.encodeCompactU16Loop.induct with
  | case1 encoded remaining byte hrest ih =>
      have hne : (remaining >>> 7).toNat ≠ 0 := fun h => hrest (UInt16.toNat_inj.mp h)
      rw [shiftRight_7_toNat] at hne
      have hbyte : byte ||| 0x80 = UInt8.ofNat (remaining.toNat % 128 + 128) := by
        rw [← UInt8.toNat_inj, UInt8.toNat_or, Daemon.byte_toNat, toNat_ofNat (by omega)]
        exact nat_or_80 _ (by omega)
      rw [Daemon.encodeCompactU16Loop, if_pos hrest, ih, shiftRight_7_toNat,
        digits_of_ge (show 128 ≤ remaining.toNat by omega), hbyte, List.append_assoc]
      rfl
  | case2 encoded remaining hrest =>
      have hzero : (remaining >>> 7).toNat = 0 := by
        rw [not_not.mp hrest]
        rfl
      rw [shiftRight_7_toNat] at hzero
      have hbyte : (remaining &&& 0x7f).toUInt8 = UInt8.ofNat remaining.toNat := by
        rw [← UInt8.toNat_inj, Daemon.byte_toNat, toNat_ofNat (by omega)]
        omega
      rw [Daemon.encodeCompactU16Loop, if_neg hrest, digits_of_lt (by omega), ← hbyte]

theorem Daemon.encodeCompactU16_eq (value : UInt16) :
    Daemon.encodeCompactU16 value = digits value.toNat :=
  Daemon.encodeCompactU16Loop_eq [] value

/-! ### The decoders read them back -/

/-- The daemon's decoder on a byte slice, by the bytes in front of it. -/
theorem Daemon.decodeCompactU16_ok {data : ByteSlice} {offset stop : ℕ} {value : UInt16} :
    Daemon.decodeCompactU16 data.bytes offset = .ok (value, stop) ↔
      ∃ seg, Spans data.bytes offset stop seg ∧ IsCompactU16 value.toNat seg := by
  have hstep := Simulation.decodeCompactU16_inStep data.length_lt offset
  rw [← Reference.decodeCompactU16_ok]
  constructor
  · intro h
    obtain ⟨⟨n, stop'⟩, href, hn, hstop, -⟩ := hstep.exists_ok h
    cases hn
    cases hstop
    exact href
  · intro h
    obtain ⟨⟨value', stop'⟩, hdaemon, hn, hstop, -⟩ := hstep.exists_ok' h
    have hvalue : value' = value := UInt16.toNat_inj.mp hn
    have hend : stop' = stop := hstop
    rw [hdaemon, hvalue, hend]

/-- **The wire format of a count**, for the daemon and for the reference: what
the encoder writes is read back wherever it stands, and what the decoder accepts
is a list of base-128 digits of the value, the encoder's own exactly when there
is no zero digit to spare. -/
theorem compactU16_format :
    (∀ (value : UInt16) (data : ByteSlice) (offset stop : ℕ),
      Spans data.bytes offset stop (Daemon.encodeCompactU16 value) →
      Daemon.decodeCompactU16 data.bytes offset = .ok (value, stop)) ∧
    (∀ (data : ByteSlice) (offset : ℕ) (value : UInt16) (stop : ℕ),
      Daemon.decodeCompactU16 data.bytes offset = .ok (value, stop) →
      ∃ seg, Spans data.bytes offset stop seg ∧ IsCompactU16 value.toNat seg ∧
        (seg = Daemon.encodeCompactU16 value ↔ Minimal seg)) ∧
    (∀ value : UInt16, ∃ seg, Reference.encodeCompactU16 value.toNat = .ok seg ∧
      ∀ (data : Bytes) (offset stop : ℕ), Spans data offset stop seg →
        Reference.decodeCompactU16 data offset = .ok (value.toNat, stop)) ∧
    (∀ (data : Bytes) (offset n stop : ℕ),
      Reference.decodeCompactU16 data offset = .ok (n, stop) →
      ∃ seg, Spans data offset stop seg ∧ IsCompactU16 n seg ∧
        (Reference.encodeCompactU16 n = .ok seg ↔ Minimal seg)) := by
  refine ⟨?_, ?_, ?_, ?_⟩
  · intro value data offset stop hspans
    rw [Daemon.encodeCompactU16_eq] at hspans
    exact Daemon.decodeCompactU16_ok.mpr ⟨_, hspans, isCompactU16_digits value.toNat_lt⟩
  · intro data offset value stop h
    obtain ⟨seg, hspans, hseg⟩ := Daemon.decodeCompactU16_ok.mp h
    exact ⟨seg, hspans, hseg, by rw [Daemon.encodeCompactU16_eq, hseg.eq_digits_iff]⟩
  · intro value
    refine ⟨_, Reference.encodeCompactU16_eq value.toNat_lt, ?_⟩
    intro data offset stop hspans
    exact Reference.decodeCompactU16_ok.mpr ⟨_, hspans, isCompactU16_digits value.toNat_lt⟩
  · intro data offset n stop h
    obtain ⟨seg, hspans, hseg⟩ := Reference.decodeCompactU16_ok.mp h
    refine ⟨seg, hspans, hseg, ?_⟩
    rw [Reference.encodeCompactU16_eq hseg.lt, ← hseg.eq_digits_iff]
    constructor
    · intro hok
      cases hok
      rfl
    · rintro rfl
      rfl

/-- `[0x80, 0x00]` is read as zero and is not what zero is written as. -/
theorem decodeCompactU16_redundant_zero :
    Daemon.decodeCompactU16 [0x80, 0x00] 0 = .ok (0, 2) ∧
    Reference.decodeCompactU16 [0x80, 0x00] 0 = .ok (0, 2) ∧
    Spans [0x80, 0x00] 0 2 [(0x80 : UInt8), 0x00] ∧
    Daemon.encodeCompactU16 0 ≠ [0x80, 0x00] ∧
    Reference.encodeCompactU16 0 ≠ .ok [0x80, 0x00] := by
  refine ⟨by decide, by decide, ⟨[], rfl, rfl⟩, ?_, ?_⟩
  · rw [Daemon.encodeCompactU16_eq, digits_of_lt (by decide)]
    decide
  · have hzero := Reference.encodeCompactU16_eq (show 0 < 65536 by decide)
    rw [digits_of_lt (by decide)] at hzero
    rw [show (0 : ℤ) = ((0 : ℕ) : ℤ) from rfl, hzero]
    decide

end Kv260Sigv
