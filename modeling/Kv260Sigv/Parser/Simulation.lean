import Kv260Sigv.Parser.Reference
import Mathlib.Data.Nat.Bitwise
import Mathlib.Tactic.NormNum

/-!
# The daemon's parser runs in step with the reference

Function by function, up to and including `parse_message`: on a byte slice the
two implementations return related values or report errors with the same text.
Offsets stay inside the buffer and the buffer is shorter than `2 ^ 63`, so the
`usize` additions neither overflow nor saturate; counts are at most `0xffff`, so
the `u32` accumulator and the `u16` result lose nothing.

The only place left where the two can differ is `parse_transaction` itself.
-/

namespace Kv260Sigv

namespace Simulation

open Outcome

/-- Both errors carry the same text. -/
def SameText (e : Daemon.ParseError) (e' : Reference.ParseError) : Prop :=
  e.message = e'.message

/-- The two computations run in step. -/
abbrev InStep {α β : Type} (R : α → β → Prop) : Daemon.Parse α → Reference.Parse β → Prop :=
  Matches SameText R

theorem fail_inStep {α β : Type} (R : α → β → Prop) (message : String) :
    InStep R (Daemon.fail message) (Reference.fail message) :=
  .err rfl

/-- Equal offsets, inside the buffer. -/
def AtOffset (data : Bytes) (offset offset' : ℕ) : Prop :=
  offset = offset' ∧ offset ≤ data.length

/-- Related values and equal offsets inside the buffer. -/
def Read {α β : Type} (data : Bytes) (R : α → β → Prop) (p : α × ℕ) (p' : β × ℕ) : Prop :=
  R p.1 p'.1 ∧ AtOffset data p.2 p'.2

/-- The same count. -/
def SameCount (n : UInt16) (n' : ℕ) : Prop := n.toNat = n'

/-! ### Counts -/

/-- One digit more in the accumulator, in 32 bits and unbounded. -/
theorem accumulate {value : UInt32} {v s : ℕ} (b : UInt8) (hv : value.toNat = v)
    (hs : s ≤ 14) :
    (value ||| ((b &&& 0x7f).toUInt32 <<< (UInt32.ofNat s))).toNat =
      v ||| ((b.toNat &&& 0x7f) <<< s) := by
  have hdigit : b.toNat &&& 0x7f < 2 ^ 7 := Nat.and_lt_two_pow _ (by decide)
  have hshift : (b.toNat &&& 0x7f) <<< s < 2 ^ 32 := by
    rw [Nat.shiftLeft_eq]
    calc (b.toNat &&& 0x7f) * 2 ^ s < 2 ^ 7 * 2 ^ s :=
          Nat.mul_lt_mul_of_pos_right hdigit (by positivity)
      _ ≤ 2 ^ 7 * 2 ^ 14 := Nat.mul_le_mul_left _ (Nat.pow_le_pow_right (by decide) hs)
      _ < 2 ^ 32 := by decide
  have hs32 : (UInt32.ofNat s).toNat % 32 = s := by
    rw [UInt32.toNat_ofNat', Nat.mod_eq_of_lt (by omega), Nat.mod_eq_of_lt (by omega)]
  rw [UInt32.toNat_or, UInt32.toNat_shiftLeft, hs32, hv, UInt8.toNat_toUInt32, UInt8.toNat_and]
  congr 1
  exact Nat.mod_eq_of_lt hshift

theorem uint8_and_80 (b : UInt8) : b &&& 0x80 = 0 ↔ b.toNat &&& 0x80 = 0 := by
  rw [← UInt8.toNat_inj, UInt8.toNat_and]
  rfl

/-- The loop of `decode_compact_u16`: with `rounds` rounds left the shift is at
most `7 * (3 - rounds)` and the accumulators agree. -/
theorem decodeCompactU16Loop_inStep {data : Bytes} (hdata : data.length < 2 ^ 63) :
    ∀ (rounds offset s : ℕ) (value : UInt32) (v : ℕ), s + 7 * rounds ≤ 21 →
      value.toNat = v →
      InStep (Read data SameCount)
        (Daemon.decodeCompactU16Loop data rounds offset value (UInt32.ofNat s))
        (Reference.decodeCompactU16Loop data rounds offset v s) := by
  intro rounds
  induction rounds with
  | zero =>
      intro offset s value v _ _
      exact fail_inStep _ _
  | succ rounds ih =>
      intro offset s value v hs hv
      unfold Daemon.decodeCompactU16Loop Reference.decodeCompactU16Loop
      rcases hbyte : data[offset]? with _ | b
      · rw [if_pos (List.getElem?_eq_none_iff.mp hbyte)]
        exact fail_inStep _ _
      · have hlt := (List.getElem?_eq_some_iff.mp hbyte).1
        have hnext : Daemon.usizeAdd offset 1 = .ok (offset + 1) := if_pos (by omega)
        have hindex : (Outcome.index data offset : Reference.Parse UInt8) = .ok b := by
          simp [hbyte]
        have hacc := accumulate b hv (s := s) (by omega)
        simp only [hnext, hindex, ok_bind, uint8_and_80, if_neg (by omega : ¬ offset ≥ data.length)]
        split
        · -- the last digit: the 32-bit bound is the unbounded one
          have hgt : (value ||| ((b &&& 0x7f).toUInt32 <<< UInt32.ofNat s) > 0xffff) ↔
              (v ||| ((b.toNat &&& 0x7f) <<< s)) > 0xffff := by
            rw [← hacc]
            exact UInt32.lt_iff_toNat_lt
          simp only [hgt]
          split
          · exact fail_inStep _ _
          · rename_i hfit
            refine .ok ⟨?_, rfl, hlt⟩
            show (UInt32.toUInt16 _).toNat = _
            rw [UInt32.toNat_toUInt16, hacc]
            exact Nat.mod_eq_of_lt (by omega)
        · have hshift : UInt32.ofNat s + 7 = UInt32.ofNat (s + 7) := by
            rw [UInt32.ofNat_add]
            rfl
          rw [hshift]
          exact ih (offset + 1) (s + 7) _ _ (by omega) hacc

theorem decodeCompactU16_inStep {data : Bytes} (hdata : data.length < 2 ^ 63) (offset : ℕ) :
    InStep (Read data SameCount)
      (Daemon.decodeCompactU16 data offset) (Reference.decodeCompactU16 data offset) :=
  decodeCompactU16Loop_inStep hdata 3 offset 0 0 0 (by decide) rfl

/-! ### Blocks -/

/-- A 65536-byte step from inside the buffer does not saturate. -/
theorem take_inStep {data : Bytes} (hdata : data.length < 2 ^ 63) {offset size : ℕ}
    (hoffset : offset ≤ data.length) (hsize : size < 65536) (label : String) :
    InStep (Read data fun bytes bytes' => bytes = bytes' ∧ bytes.length = size)
      (Daemon.take data offset size label) (Reference.take data offset size label) := by
  have hsat : Daemon.saturatingAdd offset size = offset + size :=
    Nat.min_eq_left (by omega)
  unfold Daemon.take Reference.take
  simp only [hsat]
  split
  · exact fail_inStep _ _
  · rename_i hstop
    have hslice : (Outcome.slice data offset (offset + size) : Daemon.Parse Bytes) =
        .ok ((data.drop offset).take (offset + size - offset)) :=
      if_pos ⟨by omega, by omega⟩
    rw [hslice, ok_bind]
    refine .ok ⟨⟨rfl, ?_⟩, rfl, by omega⟩
    simp only [List.length_take, List.length_drop]
    omega

theorem uint16_toNat_lt (n : UInt16) : n.toNat < 65536 := n.toNat_lt

/-! ### Nested lists -/

theorem skipCompiledInstruction_inStep {data : Bytes} (hdata : data.length < 2 ^ 63)
    (offset offset' : ℕ) (h : AtOffset data offset offset') :
    InStep (AtOffset data) (Daemon.skipCompiledInstruction data offset)
      (Reference.skipCompiledInstruction data offset') := by
  obtain ⟨rfl, hoffset⟩ := h
  refine (take_inStep hdata hoffset (by decide) _).bind ?_
  rintro ⟨_, o⟩ ⟨_, o'⟩ ⟨_, rfl, ho⟩
  refine (decodeCompactU16_inStep hdata o).bind ?_
  rintro ⟨n, o⟩ ⟨_, o'⟩ ⟨rfl, rfl, ho⟩
  refine (take_inStep hdata ho (uint16_toNat_lt n) _).bind ?_
  rintro ⟨_, o⟩ ⟨_, o'⟩ ⟨_, rfl, ho⟩
  refine (decodeCompactU16_inStep hdata o).bind ?_
  rintro ⟨m, o⟩ ⟨_, o'⟩ ⟨rfl, rfl, ho⟩
  refine (take_inStep hdata ho (uint16_toNat_lt m) _).bind ?_
  rintro ⟨_, o⟩ ⟨_, o'⟩ ⟨_, ho⟩
  exact .ok ho

theorem skipAddressTableLookup_inStep {data : Bytes} (hdata : data.length < 2 ^ 63)
    (offset offset' : ℕ) (h : AtOffset data offset offset') :
    InStep (AtOffset data) (Daemon.skipAddressTableLookup data offset)
      (Reference.skipAddressTableLookup data offset') := by
  obtain ⟨rfl, hoffset⟩ := h
  refine (take_inStep hdata hoffset (by decide) _).bind ?_
  rintro ⟨_, o⟩ ⟨_, o'⟩ ⟨_, rfl, ho⟩
  refine (decodeCompactU16_inStep hdata o).bind ?_
  rintro ⟨n, o⟩ ⟨_, o'⟩ ⟨rfl, rfl, ho⟩
  refine (take_inStep hdata ho (uint16_toNat_lt n) _).bind ?_
  rintro ⟨_, o⟩ ⟨_, o'⟩ ⟨_, rfl, ho⟩
  refine (decodeCompactU16_inStep hdata o).bind ?_
  rintro ⟨m, o⟩ ⟨_, o'⟩ ⟨rfl, rfl, ho⟩
  refine (take_inStep hdata ho (uint16_toNat_lt m) _).bind ?_
  rintro ⟨_, o⟩ ⟨_, o'⟩ ⟨_, ho⟩
  exact .ok ho

/-- The reference also returns the number of rounds; the daemon does not. -/
theorem skipCompiledInstructions_inStep {data : Bytes} (hdata : data.length < 2 ^ 63)
    (offset : ℕ) :
    InStep (fun o p => AtOffset data o p.2) (Daemon.skipCompiledInstructions data offset)
      (Reference.skipCompiledInstructions data offset) := by
  refine (decodeCompactU16_inStep hdata offset).bind ?_
  rintro ⟨n, o⟩ ⟨_, o'⟩ ⟨rfl, ho⟩
  have hloop := Matches.iterate (skipCompiledInstruction_inStep hdata) n.toNat o o' ho
  exact hloop.map_right fun _ _ h => h

theorem skipAddressTableLookups_inStep {data : Bytes} (hdata : data.length < 2 ^ 63)
    (offset : ℕ) :
    InStep (fun o p => AtOffset data o p.2) (Daemon.skipAddressTableLookups data offset)
      (Reference.skipAddressTableLookups data offset) := by
  refine (decodeCompactU16_inStep hdata offset).bind ?_
  rintro ⟨n, o⟩ ⟨_, o'⟩ ⟨rfl, ho⟩
  have hloop := Matches.iterate (skipAddressTableLookup_inStep hdata) n.toNat o o' ho
  exact hloop.map_right fun _ _ h => h

/-- The same entries, as arrays and as byte strings. -/
def SameEntries (size : ℕ) (entries : List (FixedBytes size)) (entries' : List Bytes) : Prop :=
  entries.map Subtype.val = entries'

theorem takeArray_inStep {data : Bytes} (hdata : data.length < 2 ^ 63) {size : ℕ}
    (hsize : size < 65536) (label : String) (state : List (FixedBytes size) × ℕ)
    (state' : List Bytes × ℕ) (h : Read data (SameEntries size) state state') :
    InStep (Read data (SameEntries size)) (Daemon.takeArray data size label state)
      (Reference.takeEntry data size label state') := by
  obtain ⟨hentries, hoffset, hle⟩ := h
  unfold Daemon.takeArray Reference.takeEntry
  rw [← hoffset]
  refine (take_inStep hdata hle hsize label).bind ?_
  rintro ⟨bytes, o⟩ ⟨_, o'⟩ ⟨⟨rfl, hlength⟩, ho⟩
  have harray : Daemon.tryIntoArray size bytes = .ok ⟨bytes, hlength⟩ := dif_pos hlength
  show InStep _ (Daemon.tryIntoArray size bytes >>= _) _
  rw [harray, ok_bind]
  refine .ok ⟨?_, ho⟩
  rw [SameEntries] at hentries ⊢
  simp [hentries]

/-! ### Messages -/

theorem index_inStep {α : Type} (data : List α) (i : ℕ) :
    InStep Eq (Outcome.index data i) (Outcome.index data i) := by
  unfold Outcome.index
  split
  · exact .ok rfl
  · exact .panic

theorem messageVersion_inStep (data : Bytes) :
    InStep Eq (Daemon.messageVersion data) (Reference.messageVersion data) := by
  refine (index_inStep data 0).bind ?_
  rintro first _ rfl
  split
  · dsimp only
    split
    · exact fail_inStep _ _
    · exact .ok rfl
  · exact .ok rfl

/-- The parsed messages agree in everything the daemon keeps. -/
def SameMessage (info : Daemon.ParsedMessage) (info' : Reference.ParsedMessage) : Prop :=
  info.messageVersion = info'.messageVersion ∧
    info.numRequiredSignatures.toNat = info'.numRequiredSignatures ∧
    SameEntries 32 info.staticAccountKeys info'.staticAccountKeys

theorem index_of_lt {ε : Type} {data : Bytes} {i : ℕ} (h : i < data.length) :
    (Outcome.index data i : Outcome ε UInt8) = .ok data[i] := by
  simp [h]

/-- `parse_message` and its reference run in step on every slice. -/
theorem parseMessage_inStep {data : Bytes} (hdata : data.length < 2 ^ 63) :
    InStep SameMessage (Daemon.parseMessage data) (Reference.parseMessage data) := by
  unfold Daemon.parseMessage Reference.parseMessage
  split
  · exact fail_inStep _ _
  refine (messageVersion_inStep data).bind ?_
  rintro ⟨version, headerOffset⟩ _ rfl
  dsimp only
  split
  · exact fail_inStep _ _
  rename_i hheader
  simp only [index_of_lt (by omega : headerOffset < data.length),
    index_of_lt (by omega : headerOffset + 1 < data.length),
    index_of_lt (by omega : headerOffset + 2 < data.length), ok_bind]
  refine (decodeCompactU16_inStep hdata _).bind ?_
  rintro ⟨n, o⟩ ⟨_, o'⟩ ⟨rfl, ho⟩
  refine (Matches.iterate (takeArray_inStep hdata (by decide) _) n.toNat ([], o) ([], o')
    ⟨rfl, ho⟩).bind ?_
  rintro ⟨keys, o⟩ ⟨keys', o'⟩ ⟨hkeys, rfl, ho⟩
  refine (take_inStep hdata ho (by decide) _).bind ?_
  rintro ⟨_, o⟩ ⟨_, o'⟩ ⟨_, rfl, ho⟩
  refine (skipCompiledInstructions_inStep hdata o).bind ?_
  rintro o ⟨_, o'⟩ ⟨rfl, ho⟩
  split
  · refine (skipAddressTableLookups_inStep hdata o).bind ?_
    rintro o ⟨_, o'⟩ ⟨rfl, ho⟩
    dsimp only
    split
    · exact fail_inStep _ _
    · exact .ok ⟨rfl, rfl, hkeys⟩
  · dsimp only [ok_bind]
    split
    · exact fail_inStep _ _
    · exact .ok ⟨rfl, rfl, hkeys⟩

end Simulation

end Kv260Sigv
