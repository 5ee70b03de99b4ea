import Kv260Sigv.Rtl.Ed25519PointAdd
import Kv260Sigv.Rtl.Ed25519PointDecompress
import Kv260Sigv.Rtl.VerifyModes

/-!
# The copies of the field helpers

`fe25519_aux_core`, the pipeline of the point core and the functions of the verify engine
each add, subtract, negate or reduce in their own way.  On canonical operands all give the
canonical residue (`Residue`), and so the point core puts out canonical coordinates only.
-/

set_option autoImplicit false

namespace Kv260Sigv

/-- The canonical residue of an integer mod `p`. -/
def Residue (x : BitVec 255) (n : ℤ) : Prop := (x.toNat : ℤ) = n % fieldP

theorem Residue.canonical {x : BitVec 255} {n : ℤ} (h : Residue x n) : Canonical x := by
  have hlt : n % fieldP < fieldP := Int.emod_lt_of_pos n (by decide)
  rw [← show _ = _ from h] at hlt
  exact_mod_cast hlt

namespace Fe25519AuxCore

variable {a b : BitVec 255}

theorem residue_addModP (ha : Canonical a) (hb : Canonical b) :
    Residue (addModP a b) (a.toNat + b.toNat) := by
  rw [Residue, toNat_addModP ha hb, Int.natCast_emod, Int.natCast_add]

theorem residue_subModP (ha : Canonical a) (hb : Canonical b) :
    Residue (subModP a b) (a.toNat - b.toNat) := by
  rw [Residue, toNat_subModP ha hb, Int.natCast_emod, Int.natCast_add,
    Int.ofNat_sub (Nat.le_of_lt hb), add_sub_left_comm, Int.add_emod_left]

theorem residue_negModP (ha : Canonical a) : Residue (negModP a) (-a.toNat) := by
  rw [Residue, toNat_negModP ha, Int.natCast_emod, Int.ofNat_sub (Nat.le_of_lt ha),
    Int.sub_eq_add_neg, Int.add_emod_left]

end Fe25519AuxCore

namespace Ed25519PointCore

open Fe25519AuxCore

theorem auxPipeNegResult_eq (r : Regs) : auxPipeNegResult r = negModP r.auxPipeA := rfl

theorem encodedYCanonical_eq (encoded : BitVec 256) :
    encodedYCanonical encoded = fromBytes encoded := by
  apply BitVec.eq_of_toNat_eq
  rw [toNat_encodedYCanonical, toNat_fromBytes]

end Ed25519PointCore

namespace Ed25519VerifyEngine

theorem residue_feNegModP {a : BitVec 255} (ha : Canonical a) :
    Residue (feNegModP a) (-a.toNat) := by
  have hp : fieldP = 2 ^ 255 - 19 := rfl
  have hvalue : (feNegModP a).toNat = (fieldP - a.toNat) % fieldP := by
    rw [Canonical] at ha
    rw [feNegModP]
    split
    · next hzero =>
        rw [hzero]
        rfl
    · next hne =>
        have hpos : a.toNat ≠ 0 := fun hzero => hne (BitVec.eq_of_toNat_eq hzero)
        rw [BitVec.toNat_sub, BitVec.toNat_ofNat, hp]
        omega
  rw [Residue, hvalue, Int.natCast_emod, Int.ofNat_sub (Nat.le_of_lt ha), Int.sub_eq_add_neg,
    Int.add_emod_left]

/-- `y_value` after the comparison. -/
theorem setWidth_canonicalizeEncodedPoint (encoded : BitVec 256) :
    (canonicalizeEncodedPoint encoded).setWidth 255 = Fe25519AuxCore.fromBytes encoded := by
  have hp : fieldP = 2 ^ 255 - 19 := rfl
  have hlow : ∀ (sign : BitVec 1) (y : BitVec 255), (sign ++ y).setWidth 255 = y := by
    intro sign y
    apply BitVec.eq_of_getLsbD_eq
    intro k hk
    rw [BitVec.getLsbD_setWidth, BitVec.getLsbD_append, if_pos hk, decide_eq_true hk,
      Bool.true_and]
  have hy : ((encoded.setWidth 255).setWidth 256).toNat = encoded.toNat % 2 ^ 255 := by
    rw [BitVec.toNat_setWidth, BitVec.toNat_setWidth]
    omega
  have hlift : (BitVec.ofNat 256 fieldP).toNat = fieldP := rfl
  rw [canonicalizeEncodedPoint, hlow]
  apply BitVec.eq_of_toNat_eq
  rw [Fe25519AuxCore.toNat_fromBytes]
  split
  · next hle =>
      rw [BitVec.toNat_setWidth, BitVec.toNat_sub_of_le hle, hy, hlift]
      rw [BitVec.le_def, hy, hlift] at hle
      rw [hp] at hle ⊢
      omega
  · next hlt =>
      rw [BitVec.le_def, hy, hlift] at hlt
      rw [BitVec.toNat_setWidth, hy]
      rw [hp] at hlt ⊢
      omega

end Ed25519VerifyEngine

/-! ### The outputs of the point core -/

namespace Ed25519PointCore

open Clocked

variable {M : Multiplier} {mul : BitVec 255 → BitVec 255 → BitVec 255} {r : Regs} {s : State M}

/-- The steps with the root of a decompression in `t8`. -/
def Step.hasRoot : Step → Bool
  | .dec10 | .dec11 | .dec11Compare | .dec11Branch | .dec12 | .dec13 | .dec13Aux | .dec13Mul
  | .dec14 => true
  | _ => false

/-- The registers that `x` and `t` of the outputs come from. -/
structure Regs.Reduced (r : Regs) : Prop where
  outX : Canonical r.out.x
  outT : Canonical r.out.t
  root : r.step.hasRoot = true → Canonical r.t8
  pipe : r.step = .dec13Aux → Canonical r.auxPipeA

theorem canonical_auxPipeSignResult (h : Canonical r.auxPipeA) :
    Canonical (auxPipeSignResult r) := by
  rw [auxPipeSignResult_eq]
  split
  · exact (Fe25519AuxCore.residue_negModP h).canonical
  · exact h

theorem powDispatch_hasRoot (r n : Regs) : (powDispatch r n).step.hasRoot = false := by
  rw [(powDispatch_step r n).1]
  rfl

theorem powStore_hasRoot (v : BitVec 255) (r n : Regs) :
    (powStore v r n).step.hasRoot = false := by
  rcases (powStore_step v r n).1 with hstep | hstep <;> rw [hstep] <;> rfl

/-- A step away from the root. -/
theorem Regs.Reduced.of_out {r' : Regs} (hr : r.Reduced) (hout : r'.out = r.out)
    (hroot : r'.step.hasRoot = false) : r'.Reduced := by
  refine ⟨by rw [hout]; exact hr.outX, by rw [hout]; exact hr.outT, ?_, ?_⟩
  · intro hcontra
    rw [hroot] at hcontra
    cases hcontra
  · intro hstep
    rw [hstep] at hroot
    cases hroot

/-- A cycle of the sequencer. -/
theorem Regs.Reduced.stepBusy (f : Bool) (v : BitVec 255)
    (hv : r.step.waits = true → f = true → Canonical v) (hr : r.Reduced) :
    (stepBusy f v r r.rest).Reduced := by
  obtain ⟨-, -, -, hdispatch⟩ := powDispatch_keeps r r.rest
  obtain ⟨-, -, -, hstore⟩ := powStore_keeps v r r.rest
  have hdispatch' := @Regs.Reduced.of_out r _ hr hdispatch (powDispatch_hasRoot r r.rest)
  have hstore' := @Regs.Reduced.of_out r _ hr hstore (powStore_hasRoot v r r.rest)
  unfold Ed25519PointCore.stepBusy
  split <;> rename_i h <;> cases f <;> (repeat' split) <;>
    first
    | exact hdispatch'
    | exact hstore'
    | contradiction
    | exact hr.of_out rfl rfl
    | exact ⟨hr.outX, hr.outT, hr.root, hr.pipe⟩
    | skip
  -- the steps that write `x`, `t` or the root, or keep the root
  all_goals
    have hroot := hr.root
    have hpipe := hr.pipe
    rw [h] at hv hroot hpipe
    refine ⟨?_, ?_, ?_, ?_⟩
  all_goals
    first
    | exact hr.outX
    | exact hr.outT
    | exact canonical_zero
    | exact hv rfl rfl
    | exact hroot rfl
    | exact fun hcontra => Step.noConfusion hcontra
    | exact fun hcontra => Bool.noConfusion hcontra
    | exact fun _ => hv rfl rfl
    | exact fun _ => hroot rfl
    | exact fun _ => canonical_auxPipeSignResult (hpipe rfl)

theorem load_hasRoot (i : Inputs) (n : Regs) : (load i n).step.hasRoot = false := by
  unfold load
  split
  · rfl
  · split
    · rfl
    · split <;> rfl

theorem Regs.Reduced.load (i : Inputs) (r : Regs) : (load i r.rest).Reduced := by
  have hroot := load_hasRoot i r.rest
  obtain ⟨-, hout⟩ := @load_values (fun _ => True) i r.rest trivial trivial
  refine ⟨by rw [hout]; exact canonical_zero, by rw [hout]; exact canonical_zero, ?_, ?_⟩
  · intro hcontra
    rw [hroot] at hcontra
    cases hcontra
  · intro hstep
    rw [hstep] at hroot
    cases hroot

/-- A cycle of the core, whatever the inputs. -/
theorem Regs.Reduced.step (hreg : Regular mul) (i : Inputs) (hs : s.Sound mul)
    (hr : s.regs.Reduced) : (Ed25519PointCore.step i s).regs.Reduced := by
  by_cases hidle : s.regs.step = .idle
  · have hbusy := hs.busy_of_idle hidle
    cases hstart : i.start with
    | false =>
        rw [step_rest hbusy hstart]
        exact ⟨hr.outX, hr.outT, hr.root, hr.pipe⟩
    | true =>
        rw [step_load hbusy hstart]
        exact .load i s.regs
  · rw [step_work i (hs.busy_of_step hidle)]
    exact hr.stepBusy _ _ fun _ hdone => hs.canonical_result hreg hdone

/-- Out of reset only canonical coordinates are put out, whatever the inputs. -/
theorem canonicalPoint_out (h : M.Computes mul) (hreg : Regular mul) (inputs : ℕ → Inputs)
    (s : State M) (n : ℕ) : CanonicalPoint (run step inputs (reset s) n).regs.out := by
  have hrun : (run step inputs (reset s) n).regs.Reduced := by
    induction n with
    | zero =>
        refine ⟨canonical_zero, canonical_zero, fun hcontra => ?_, fun hcontra => ?_⟩
        · cases hcontra
        · cases hcontra
    | succ n ih => exact ih.step hreg _ (sound_run h hreg inputs s n)
  have hsound := sound_run h hreg inputs s n
  exact ⟨hrun.outX, hsound.outY, hsound.outZ, hrun.outT⟩

end Ed25519PointCore

/-! ### All copies -/

open Fe25519AuxCore Ed25519PointCore Ed25519VerifyEngine in
/-- On operands below `p` all copies add, subtract and negate mod `p`; the reductions of an
encoding agree; and in every run the point core puts out coordinates below `p`. -/
theorem field_helpers_agree {a b : BitVec 255} (ha : Canonical a) (hb : Canonical b)
    (raw encoded : BitVec 256) (r : Regs) (inputs : ℕ → Ed25519PointCore.Inputs)
    (s : Ed25519PointCore.State wideMultiplier) (n : ℕ) :
    (Residue (result .addModP a b raw) (a.toNat + b.toNat) ∧
        Residue (result .subModP a b raw) (a.toNat - b.toNat) ∧
        Residue (result .negModP a b raw) (-a.toNat)) ∧
      (Residue (auxPipeAddResult { r with auxPipeA := a, auxPipeB := b }) (a.toNat + b.toNat) ∧
        Residue (auxPipeSubResult { r with auxPipeA := a, auxPipeB := b }) (a.toNat - b.toNat) ∧
        Residue (auxPipeNegResult { r with auxPipeA := a, auxPipeB := b }) (-a.toNat)) ∧
      Residue (feNegModP a) (-a.toNat) ∧
      (Residue (result .fromBytes a b encoded) (encoded.setWidth 255).toNat ∧
        encodedYCanonical encoded = result .fromBytes a b encoded ∧
        (canonicalizeEncodedPoint encoded).setWidth 255 = result .fromBytes a b encoded) ∧
      CanonicalPoint
        (Clocked.run Ed25519PointCore.step inputs (Ed25519PointCore.reset s) n).regs.out := by
  refine ⟨⟨residue_addModP ha hb, residue_subModP ha hb, residue_negModP ha⟩,
    ⟨?_, ?_, ?_⟩, residue_feNegModP ha, ⟨?_, encodedYCanonical_eq encoded,
      setWidth_canonicalizeEncodedPoint encoded⟩, ?_⟩
  · rw [auxPipeAddResult_eq]
    exact residue_addModP ha hb
  · rw [auxPipeSubResult_eq]
    exact residue_subModP ha hb
  · rw [auxPipeNegResult_eq]
    exact residue_negModP ha
  · rw [Residue, BitVec.toNat_setWidth, ← Int.natCast_emod, ← toNat_fromBytes]
    rfl
  · exact canonicalPoint_out computes_wideMultiplier regular_mulWide inputs s n

open Fe25519AuxCore Ed25519PointCore Ed25519VerifyEngine in
/-- The largest element and one. -/
theorem field_helpers_agree_largest :
    Residue (result .addModP (-20) 1 0) ((-20 : BitVec 255).toNat + (1 : BitVec 255).toNat) :=
  (field_helpers_agree (show Canonical (-20) by decide) canonical_one 0 0 resetRegs
    (fun _ => ⟨false, 0, 0, zeroPoint, zeroPoint⟩) ⟨resetRegs, zeroMultiplier⟩ 0).1.1

end Kv260Sigv
