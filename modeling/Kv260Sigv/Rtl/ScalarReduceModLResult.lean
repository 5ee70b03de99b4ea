import Mathlib.Data.Nat.Digits.Lemmas
import Kv260Sigv.Rtl.ScalarReduceModL

/-!
# The reducer computes the digest mod `L`

The register holds the little-endian value of the digest, and before step `i` the
remainder is the one of its first `i` bits (`Reducing`).  A bit more at most doubles it, so
that one subtraction is enough, and the borrow says whether it is due.
-/

set_option autoImplicit false

namespace Kv260Sigv

namespace ScalarReduceModL

open Clocked

/-! ### The value of a digest -/

/-- The bytes of a digest, the first in the top bits. -/
def digestBytes (wideIn : BitVec 512) : List (BitVec 8) :=
  (List.range 64).map fun k => wideIn.extractLsb' ((63 - k) * 8) 8

/-- The integer they spell, first byte lowest. -/
def digestValue (wideIn : BitVec 512) : ℕ :=
  Nat.ofDigits 256 ((digestBytes wideIn).map BitVec.toNat)

/-- What the loop over `byte_index` makes of any bytes. -/
theorem toNat_collect (byte : ℕ → BitVec 8) {n : ℕ} (hn : n ≤ 64) :
    ((List.range n).foldl
        (fun shift k => shift ||| (byte k).setWidth 512 <<< (k * 8)) (0 : BitVec 512)).toNat =
      Nat.ofDigits 256 ((List.range n).map fun k => (byte k).toNat) := by
  induction n with
  | zero => exact BitVec.toNat_zero
  | succ n ih =>
      have hbyte : (byte n).toNat < 2 ^ 8 := (byte n).isLt
      have hlow : Nat.ofDigits 256 ((List.range n).map fun k => (byte k).toNat) < 2 ^ (n * 8) := by
        have hlt := Nat.ofDigits_lt_base_pow_length (b := 256)
          (l := (List.range n).map fun k => (byte k).toNat) (by decide) ?_
        · rw [List.length_map, List.length_range] at hlt
          rwa [show n * 8 = 8 * n from Nat.mul_comm n 8, pow_mul]
        · intro x hx
          obtain ⟨k, -, rfl⟩ := List.mem_map.mp hx
          exact (byte k).isLt
      have hshift : ((byte n).setWidth 512 <<< (n * 8)).toNat = (byte n).toNat <<< (n * 8) := by
        rw [BitVec.toNat_shiftLeft, BitVec.toNat_setWidth,
          Nat.mod_eq_of_lt (hbyte.trans (Nat.pow_lt_pow_right Nat.one_lt_two (by decide))),
          Nat.shiftLeft_eq, Nat.mod_eq_of_lt]
        calc (byte n).toNat * 2 ^ (n * 8)
            < 2 ^ 8 * 2 ^ (n * 8) := Nat.mul_lt_mul_of_pos_right hbyte (by positivity)
          _ = 2 ^ (8 + n * 8) := (pow_add 2 8 (n * 8)).symm
          _ ≤ 2 ^ 512 := Nat.pow_le_pow_right Nat.two_pos (by omega)
      rw [List.range_succ, List.foldl_append, List.map_append, Nat.ofDigits_append,
        List.length_map, List.length_range]
      show (_ ||| (byte n).setWidth 512 <<< (n * 8)).toNat = _
      rw [BitVec.toNat_or, hshift, ih (by omega), Nat.or_comm,
        ← Nat.shiftLeft_add_eq_or_of_lt hlow, Nat.shiftLeft_eq, List.map_singleton,
        Nat.ofDigits_singleton, show 256 ^ n = 2 ^ (n * 8) by rw [Nat.mul_comm, pow_mul]; rfl]
      ring

theorem toNat_reversedBytes (wideIn : BitVec 512) :
    (reversedBytes wideIn).toNat = digestValue wideIn := by
  rw [digestValue, digestBytes, List.map_map]
  exact toNat_collect _ le_rfl

/-! ### One step -/

/-- `L`. -/
def scalarL : ℕ := 2 ^ 252 + 27742317777372353535851937790883648493

theorem toNat_ed25519ScalarL : ed25519ScalarL.toNat = scalarL := rfl

theorem scalarL_lt : scalarL < 2 ^ 253 := by decide

/-- The bit that is shifted in. -/
theorem toNat_candidate1bit (s : State) :
    (candidate1bit s).toNat = 2 * s.remainder.toNat + (s.shiftReg.getLsbD 511).toNat := by
  have hbit : (s.shiftReg.extractLsb' 511 1).toNat = (s.shiftReg.getLsbD 511).toNat := by
    rw [BitVec.extractLsb'_toNat, BitVec.getLsbD, Nat.toNat_testBit, Nat.shiftRight_eq_div_pow]
  have hlt : (s.shiftReg.extractLsb' 511 1).toNat < 2 ^ 1 := BitVec.isLt _
  rw [candidate1bit, BitVec.toNat_append, ← Nat.shiftLeft_add_eq_or_of_lt hlt, Nat.shiftLeft_eq,
    hbit]
  ring

/-- The top bit of a difference is the borrow. -/
theorem getLsbD_sub_top {w : ℕ} {x y : BitVec (w + 1)} (hx : x.toNat < 2 ^ w)
    (hy : y.toNat ≤ 2 ^ w) : (x - y).getLsbD w = decide (x.toNat < y.toNat) := by
  have hmsb : (x - y).getLsbD w = (x - y).msb := (BitVec.msb_eq_getLsbD_last (x - y)).symm
  rw [hmsb, BitVec.msb_eq_decide, Nat.add_sub_cancel, BitVec.toNat_sub, pow_succ]
  generalize 2 ^ w = half at hx hy
  refine decide_eq_decide.mpr ?_
  rcases Nat.lt_or_ge x.toNat y.toNat with hlt | hge
  · rw [Nat.mod_eq_of_lt (by omega)]
    omega
  · rw [show half * 2 - y.toNat + x.toNat = x.toNat - y.toNat + half * 2 by omega,
      Nat.add_mod_right, Nat.mod_eq_of_lt (by omega)]
    omega

theorem toNat_setWidth_candidate (s : State) :
    ((candidate1bit s).setWidth 258).toNat = (candidate1bit s).toNat :=
  BitVec.toNat_setWidth_of_le (by decide)

theorem toNat_setWidth_lExt : (lExt.setWidth 258).toNat = scalarL := rfl

/-- The difference has a borrow exactly when `L` does not fit. -/
theorem getLsbD_candidateMinusL (s : State) :
    (candidateMinusL s).getLsbD 257 = decide ((candidate1bit s).toNat < scalarL) := by
  have hlt : ((candidate1bit s).setWidth 258).toNat < 2 ^ 257 := by
    rw [toNat_setWidth_candidate]
    exact (candidate1bit s).isLt
  have hle : (lExt.setWidth 258).toNat ≤ 2 ^ 257 := by
    rw [toNat_setWidth_lExt]
    exact scalarL_lt.le.trans (Nat.pow_le_pow_right Nat.two_pos (by decide))
  have hborrow := getLsbD_sub_top hlt hle
  rwa [toNat_setWidth_candidate, toNat_setWidth_lExt] at hborrow

theorem toNat_nextRemainder {s : State} (h : s.remainder.toNat < scalarL) :
    (nextRemainder s).toNat =
      (2 * s.remainder.toNat + (s.shiftReg.getLsbD 511).toNat) % scalarL := by
  have hbit : (s.shiftReg.getLsbD 511).toNat < 2 := Bool.toNat_lt _
  have hcandidate := toNat_candidate1bit s
  have hwidth : scalarL < 2 ^ 256 :=
    scalarL_lt.trans (Nat.pow_lt_pow_right Nat.one_lt_two (by decide))
  rw [nextRemainder, getLsbD_candidateMinusL, ← hcandidate]
  split
  · next hfits =>
      rw [Bool.not_eq_true', decide_eq_false_iff_not, Nat.not_lt] at hfits
      have hle : lExt.setWidth 258 ≤ (candidate1bit s).setWidth 258 := by
        rw [BitVec.le_def, toNat_setWidth_candidate, toNat_setWidth_lExt]
        exact hfits
      rw [BitVec.toNat_setWidth, candidateMinusL, BitVec.toNat_sub_of_le hle,
        toNat_setWidth_candidate, toNat_setWidth_lExt, Nat.mod_eq_sub_mod hfits,
        Nat.mod_eq_of_lt (b := scalarL) (by omega)]
      exact Nat.mod_eq_of_lt (lt_trans (by omega) hwidth)
  · next hless =>
      rw [Bool.not_eq_true', Bool.not_eq_false, decide_eq_true_eq] at hless
      rw [BitVec.toNat_setWidth, Nat.mod_eq_of_lt hless]
      exact Nat.mod_eq_of_lt (hless.trans hwidth)

/-! ### The loop -/

/-- Before step `i`. -/
structure Reducing (wideIn : BitVec 512) (i : ℕ) (s : State) : Prop where
  busy : s.busy = true
  done : s.done = false
  index : s.bitIndex.toNat + i = 511
  shift : s.shiftReg = reversedBytes wideIn <<< i
  remainder : s.remainder.toNat = digestValue wideIn / 2 ^ (512 - i) % scalarL

/-- The registers after the last step. -/
structure Reduced (wideIn : BitVec 512) (s : State) : Prop where
  done : s.done = true
  scalarOut : s.scalarOut.toNat = digestValue wideIn % scalarL

variable {wideIn : BitVec 512} {i : ℕ} {s : State}

/-- The remainder of a prefix and of the next. -/
theorem prefix_succ (value k d : ℕ) :
    (2 * (value / 2 ^ (k + 1) % d) + value / 2 ^ k % 2) % d = value / 2 ^ k % d := by
  have hsplit : 2 * (value / 2 ^ (k + 1)) + value / 2 ^ k % 2 = value / 2 ^ k := by
    rw [pow_succ, ← Nat.div_div_eq_div_mul]
    exact Nat.div_add_mod _ 2
  calc (2 * (value / 2 ^ (k + 1) % d) + value / 2 ^ k % 2) % d
      = (2 * (value / 2 ^ (k + 1)) + value / 2 ^ k % 2) % d := by
        rw [Nat.add_mod, Nat.mul_mod, Nat.mod_mod, ← Nat.mul_mod, ← Nat.add_mod]
    _ = value / 2 ^ k % d := by rw [hsplit]

/-- What a step makes of the remainder. -/
theorem Reducing.nextRemainder (h : Reducing wideIn i s) (hi : i ≤ 511) :
    (nextRemainder s).toNat = digestValue wideIn / 2 ^ (511 - i) % scalarL := by
  have hlt : s.remainder.toNat < scalarL := by
    rw [h.remainder]
    exact Nat.mod_lt _ (by decide)
  have hbit : (s.shiftReg.getLsbD 511).toNat = digestValue wideIn / 2 ^ (511 - i) % 2 := by
    rw [h.shift, BitVec.getLsbD_shiftLeft, ← toNat_reversedBytes, ← Nat.toNat_testBit]
    simp only [show 511 < 512 by decide, decide_true, Bool.true_and,
      decide_eq_false (show ¬ 511 < i by omega), Bool.not_false]
    rfl
  rw [toNat_nextRemainder hlt, h.remainder, hbit, show 512 - i = 511 - i + 1 by omega, prefix_succ]

theorem reducing_start (j : Inputs) (hidle : s.busy = false) (hstart : j.start = true) :
    Reducing j.wideIn 0 (step j s) := by
  have hstep : step j s =
      { s with
        done := false
        busy := true
        shiftReg := reversedBytes j.wideIn
        remainder := 0
        scalarOut := 0
        bitIndex := 511 } := by
    simp only [step, hidle, hstart, Bool.not_false, if_true]
  rw [hstep]
  refine ⟨rfl, rfl, rfl, (BitVec.shiftLeft_zero _).symm, ?_⟩
  have hlt : digestValue j.wideIn < 2 ^ 512 := by
    rw [← toNat_reversedBytes]
    exact BitVec.isLt _
  rw [Nat.sub_zero, Nat.div_eq_of_lt hlt]
  rfl

/-- One step. -/
theorem Reducing.step (h : Reducing wideIn i s) (hi : i ≤ 511) (j : Inputs) :
    (ScalarReduceModL.step j s).remainder.toNat =
        digestValue wideIn / 2 ^ (511 - i) % scalarL ∧
      (i < 511 → Reducing wideIn (i + 1) (ScalarReduceModL.step j s)) ∧
      (i = 511 → Reduced wideIn (ScalarReduceModL.step j s)) := by
  have hnext := h.nextRemainder hi
  have hindex := h.index
  rcases Nat.lt_or_eq_of_le hi with hlt | rfl
  · have hne : s.bitIndex ≠ 0 := by
      intro hzero
      rw [hzero] at hindex
      exact hlt.ne ((Nat.zero_add i).symm.trans hindex)
    have hle : 1 ≤ s.bitIndex := BitVec.le_def.mpr (show 1 ≤ s.bitIndex.toNat by omega)
    have hstep : ScalarReduceModL.step j s =
        { s with
          done := false
          remainder := ScalarReduceModL.nextRemainder s
          shiftReg := s.shiftReg <<< 1
          bitIndex := s.bitIndex - 1 } := by
      simp only [ScalarReduceModL.step, h.busy, Bool.not_true, Bool.false_eq_true, if_false, hne]
    rw [hstep]
    refine ⟨hnext, fun _ => ⟨h.busy, rfl, ?_, ?_, ?_⟩, fun heq => absurd heq hlt.ne⟩
    · show (s.bitIndex - 1).toNat + (i + 1) = 511
      rw [BitVec.toNat_sub_of_le hle, show (1 : BitVec 9).toNat = 1 from rfl]
      omega
    · show s.shiftReg <<< 1 = _
      rw [h.shift, ← BitVec.shiftLeft_add]
    · rw [show 512 - (i + 1) = 511 - i by omega]
      exact hnext
  · have hzero : s.bitIndex = 0 := BitVec.eq_of_toNat_eq (show s.bitIndex.toNat = 0 by omega)
    have hstep : ScalarReduceModL.step j s =
        { s with
          busy := false
          done := true
          remainder := ScalarReduceModL.nextRemainder s
          shiftReg := s.shiftReg <<< 1
          scalarOut := ScalarReduceModL.nextRemainder s } := by
      simp only [ScalarReduceModL.step, h.busy, Bool.not_true, Bool.false_eq_true, if_false, hzero,
        if_true]
    rw [hstep]
    refine ⟨hnext, fun hcontra => absurd hcontra (Nat.lt_irrefl 511), fun _ => ⟨rfl, ?_⟩⟩
    rw [Nat.sub_self, pow_zero, Nat.div_one] at hnext
    exact hnext

/-- The registers before each step. -/
theorem reducing_run {inputs : ℕ → Inputs} (hidle : s.busy = false)
    (hstart : (inputs 0).start = true) (hi : i ≤ 511) :
    Reducing (inputs 0).wideIn i (run step inputs s (i + 1)) := by
  induction i with
  | zero => exact reducing_start (inputs 0) hidle hstart
  | succ i ih => exact ((ih (by omega)).step (by omega) (inputs (i + 1))).2.1 (by omega)

/-- Every digest is reduced in 512 steps, with a remainder below `L` after each. -/
theorem reduce_digest {inputs : ℕ → Inputs} (hidle : s.busy = false)
    (hstart : (inputs 0).start = true) :
    (∀ i < 512, (run step inputs s (i + 1)).done = false) ∧
      (∀ i ≤ 512, (run step inputs s (i + 1)).remainder.toNat < scalarL) ∧
      (run step inputs s 513).done = true ∧
      (run step inputs s 513).scalarOut.toNat = digestValue (inputs 0).wideIn % scalarL := by
  have hpos : 0 < scalarL := by decide
  obtain ⟨hremainder, -, hreduced⟩ :=
    (reducing_run hidle hstart le_rfl).step le_rfl (inputs (511 + 1))
  have hend := hreduced rfl
  have hrun : run step inputs s 513 = step (inputs (511 + 1)) (run step inputs s (511 + 1)) :=
    run_succ (511 + 1)
  rw [← hrun] at hremainder hend
  refine ⟨?_, ?_, hend.done, hend.scalarOut⟩
  · intro i hi
    exact (reducing_run hidle hstart (by omega)).done
  · intro i hi
    rcases Nat.lt_or_eq_of_le hi with hlt | rfl
    · rw [(reducing_run hidle hstart (by omega)).remainder]
      exact Nat.mod_lt _ hpos
    · rw [hremainder]
      exact Nat.mod_lt _ hpos

/-- A start with a digest of bytes `0xFF`. -/
def startOnes : Inputs := ⟨true, BitVec.allOnes 512⟩

theorem reduce_digest_ones :
    (run step (fun _ => startOnes) reset 513).scalarOut.toNat =
      digestValue startOnes.wideIn % scalarL :=
  (@reduce_digest reset (fun _ => startOnes) rfl rfl).2.2.2

end ScalarReduceModL

end Kv260Sigv
