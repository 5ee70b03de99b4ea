import Kv260Sigv.Rtl.Fe25519MulWideCore

/-!
# Additions and subtractions mod `p`

The combinational field helpers: `fe25519_aux_core`, and the copies of its operations
in `ed25519_point_core` and `ed25519_verify_engine`.  On canonical operands each is the
operation mod `p`, with a canonical result.
-/

set_option autoImplicit false

namespace Kv260Sigv

/-- A field element below `p`. -/
def Canonical (x : BitVec 255) : Prop := x.toNat < fieldP

instance (x : BitVec 255) : Decidable (Canonical x) := inferInstanceAs (Decidable (_ < _))

/-! ### `fe25519_aux_core` -/

namespace Fe25519AuxCore

/-- `OP_ZERO .. OP_PASS_A`. -/
inductive Op where
  | zero
  | addModP
  | subModP
  | negModP
  | fromBytes
  | passA
  deriving DecidableEq, Repr

/-- `(&x[254:5]) && (x[4:0] >= 5'd13)`: a value of 255 bits is `p` or more. -/
def needsReduce {w : ℕ} (x : BitVec w) : Bool :=
  x.extractLsb' 5 250 = BitVec.allOnes 250 && (13 : BitVec 5) ≤ x.extractLsb' 0 5

/-- `add_sum_ext`. -/
def addSumExt (a b : BitVec 255) : BitVec 256 := a.setWidth 256 + b.setWidth 256

/-- `add_needs_reduce`. -/
def addNeedsReduce (a b : BitVec 255) : Bool :=
  (addSumExt a b).getLsbD 255 || needsReduce (addSumExt a b)

/-- `add_reduced_ext`. -/
def addReducedExt (a b : BitVec 255) : BitVec 256 := a.setWidth 256 + b.setWidth 256 + 19

/-- The result of `OP_ADD_MOD_P`. -/
def addModP (a b : BitVec 255) : BitVec 255 :=
  if addNeedsReduce a b then (addReducedExt a b).setWidth 255 else (addSumExt a b).setWidth 255

/-- `sub_diff_ext`. -/
def subDiffExt (a b : BitVec 255) : BitVec 256 := a.setWidth 256 - b.setWidth 256

/-- `sub_borrow_ext`. -/
def subBorrowExt (a b : BitVec 255) : BitVec 256 := a.setWidth 256 - b.setWidth 256 - 19

/-- The result of `OP_SUB_MOD_P`. -/
def subModP (a b : BitVec 255) : BitVec 255 :=
  if (subDiffExt a b).getLsbD 255 then (subBorrowExt a b).setWidth 255
  else (subDiffExt a b).setWidth 255

/-- The result of `OP_NEG_MOD_P`. -/
def negModP (a : BitVec 255) : BitVec 255 := if a = 0 then 0 else ~~~a - 18

/-- The result of `OP_FROM_BYTES`. -/
def fromBytes (raw : BitVec 256) : BitVec 255 :=
  if needsReduce raw then ((raw.setWidth 255).setWidth 256 + (19 : BitVec 256)).setWidth 255
  else raw.setWidth 255

/-- `result`. -/
def result (op : Op) (a b : BitVec 255) (rawBytes : BitVec 256) : BitVec 255 :=
  match op with
  | .zero => 0
  | .addModP => addModP a b
  | .subModP => subModP a b
  | .negModP => negModP a
  | .fromBytes => fromBytes rawBytes
  | .passA => a

theorem needsReduce_iff {w : ℕ} (x : BitVec w) :
    needsReduce x = true ↔ fieldP ≤ x.toNat % 2 ^ 255 := by
  have hp : fieldP = 2 ^ 255 - 19 := rfl
  rw [needsReduce, Bool.and_eq_true, decide_eq_true_eq, decide_eq_true_eq, ← BitVec.toNat_inj,
    BitVec.le_def, BitVec.extractLsb'_toNat, BitVec.extractLsb'_toNat, BitVec.toNat_allOnes,
    Nat.shiftRight_eq_div_pow, Nat.shiftRight_zero]
  show _ ∧ 13 ≤ _ ↔ _
  omega

theorem toNat_addModP {a b : BitVec 255} (ha : Canonical a) (hb : Canonical b) :
    (addModP a b).toNat = (a.toNat + b.toNat) % fieldP := by
  have hp : fieldP = 2 ^ 255 - 19 := rfl
  have hsum : (addSumExt a b).toNat = a.toNat + b.toNat := by
    rw [addSumExt, BitVec.toNat_add, BitVec.toNat_setWidth, BitVec.toNat_setWidth]
    rw [Canonical] at ha hb
    omega
  have htop : (addSumExt a b).getLsbD 255 = decide (2 ^ 255 ≤ a.toNat + b.toNat) := by
    rw [BitVec.getLsbD, hsum, Nat.testBit_eq_decide_div_mod_eq]
    rw [Canonical] at ha hb
    exact decide_eq_decide.mpr (by omega)
  have hneeds : addNeedsReduce a b = true ↔ fieldP ≤ a.toNat + b.toNat := by
    rw [addNeedsReduce, Bool.or_eq_true, htop, decide_eq_true_eq, needsReduce_iff, hsum]
    rw [Canonical] at ha hb
    omega
  rw [addModP]
  rw [Canonical] at ha hb
  split
  · next h =>
      rw [hneeds] at h
      rw [BitVec.toNat_setWidth, addReducedExt, BitVec.toNat_add, ← addSumExt, hsum]
      show (a.toNat + b.toNat + 19) % 2 ^ 256 % 2 ^ 255 = _
      rw [hp]
      omega
  · next h =>
      rw [hneeds] at h
      rw [BitVec.toNat_setWidth, hsum, hp]
      omega

theorem toNat_subModP {a b : BitVec 255} (ha : Canonical a) (hb : Canonical b) :
    (subModP a b).toNat = (a.toNat + (fieldP - b.toNat)) % fieldP := by
  have hp : fieldP = 2 ^ 255 - 19 := rfl
  have ha' := a.isLt
  have hb' := b.isLt
  have hdiff : (subDiffExt a b).toNat = (2 ^ 256 - b.toNat + a.toNat) % 2 ^ 256 := by
    rw [subDiffExt, BitVec.toNat_sub, BitVec.toNat_setWidth, BitVec.toNat_setWidth]
    omega
  have htop : (subDiffExt a b).getLsbD 255 = decide (a.toNat < b.toNat) := by
    rw [BitVec.getLsbD, hdiff, Nat.testBit_eq_decide_div_mod_eq]
    exact decide_eq_decide.mpr (by omega)
  rw [subModP, htop]
  rw [Canonical] at ha hb
  split
  · next h =>
      rw [decide_eq_true_eq] at h
      rw [BitVec.toNat_setWidth, subBorrowExt, BitVec.toNat_sub, ← subDiffExt, hdiff]
      show (2 ^ 256 - 19 + _) % 2 ^ 256 % 2 ^ 255 = _
      rw [hp]
      omega
  · next h =>
      rw [decide_eq_true_eq] at h
      rw [BitVec.toNat_setWidth, hdiff, hp]
      omega

theorem toNat_negModP {a : BitVec 255} (ha : Canonical a) :
    (negModP a).toNat = (fieldP - a.toNat) % fieldP := by
  have hp : fieldP = 2 ^ 255 - 19 := rfl
  rw [Canonical] at ha
  rw [negModP]
  split
  · next h =>
      rw [h]
      rfl
  · next h =>
      have hne : a.toNat ≠ 0 := fun hzero => h (BitVec.eq_of_toNat_eq hzero)
      rw [BitVec.toNat_sub, BitVec.toNat_not]
      show (2 ^ 255 - 18 + _) % 2 ^ 255 = _
      rw [hp]
      omega

theorem toNat_fromBytes (raw : BitVec 256) :
    (fromBytes raw).toNat = raw.toNat % 2 ^ 255 % fieldP := by
  have hp : fieldP = 2 ^ 255 - 19 := rfl
  rw [fromBytes]
  split
  · next h =>
      rw [needsReduce_iff] at h
      rw [BitVec.toNat_setWidth, BitVec.toNat_add, BitVec.toNat_setWidth, BitVec.toNat_setWidth]
      show (_ + 19) % 2 ^ 256 % 2 ^ 255 = _
      rw [hp]
      omega
  · next h =>
      rw [needsReduce_iff] at h
      rw [BitVec.toNat_setWidth, hp]
      omega

end Fe25519AuxCore

end Kv260Sigv
