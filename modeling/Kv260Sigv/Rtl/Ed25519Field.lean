import Kv260Sigv.Library.Edwards
import Kv260Sigv.Library.Primality
import Kv260Sigv.Rtl.Ed25519PointCore
import Mathlib.NumberTheory.LegendreSymbol.Basic
import Mathlib.Tactic.NormNum.Prime

/-!
# The field of the point core

`2^255 - 19` is prime, so the field elements of the data path are those of a field:
`toField` takes the registers there and the field helpers to its operations.  The
constants of the curve are the parameters of an Edwards curve (`curve`).
-/

set_option autoImplicit false

namespace Kv260Sigv

/-! ### The prime -/

open Primality in
/-- The larger of two large factors. -/
theorem prime_75445702479781427272750846543864801 :
    Nat.Prime 75445702479781427272750846543864801 := by
  have h2773320623 : Nat.Prime 2773320623 := by
    refine @prime_of_factors 2773320623 5 32 [2, 2437, 569003] ?_ (by decide +kernel)
      (by decide +kernel) (by decide +kernel) (by decide +kernel)
    simp only [List.forall_mem_cons, List.not_mem_nil, false_imp_iff, implies_true, and_true]
    norm_num
  have h72106336199 : Nat.Prime 72106336199 := by
    refine @prime_of_factors 72106336199 7 37 [2, 13, 2773320623] ?_ (by decide +kernel)
      (by decide +kernel) (by decide +kernel) (by decide +kernel)
    simp only [List.forall_mem_cons, List.not_mem_nil, false_imp_iff, implies_true, and_true]
    exact ⟨by norm_num, by norm_num, h2773320623⟩
  have h1919519569386763 : Nat.Prime 1919519569386763 := by
    refine @prime_of_factors 1919519569386763 2 51 [2, 3, 7, 19, 47, 47, 127, 8574133] ?_
      (by decide +kernel) (by decide +kernel) (by decide +kernel) (by decide +kernel)
    simp only [List.forall_mem_cons, List.not_mem_nil, false_imp_iff, implies_true, and_true]
    norm_num
  refine @prime_of_factors 75445702479781427272750846543864801 7 116
    [2, 2, 2, 2, 2, 3, 3, 5, 5, 75707, 72106336199, 1919519569386763] ?_
    (by decide +kernel) (by decide +kernel) (by decide +kernel) (by decide +kernel)
  simp only [List.forall_mem_cons, List.not_mem_nil, false_imp_iff, implies_true, and_true]
  refine ⟨?_, ?_, ?_, ?_, ?_, ?_, ?_, ?_, ?_, ?_, h72106336199, h1919519569386763⟩ <;>
    norm_num

open Primality in
/-- The large factor of `p - 1`. -/
theorem prime_largeFactor :
    Nat.Prime 74058212732561358302231226437062788676166966415465897661863160754340907 := by
  have h31757755568855353 : Nat.Prime 31757755568855353 := by
    refine @prime_of_factors 31757755568855353 10 55 [2, 2, 2, 3, 31, 107, 223, 4153, 430751] ?_
      (by decide +kernel) (by decide +kernel) (by decide +kernel) (by decide +kernel)
    simp only [List.forall_mem_cons, List.not_mem_nil, false_imp_iff, implies_true, and_true]
    norm_num
  refine @prime_of_factors
    74058212732561358302231226437062788676166966415465897661863160754340907 2 236
    [2, 3, 353, 57467, 132049, 1923133, 31757755568855353,
      75445702479781427272750846543864801] ?_
    (by decide +kernel) (by decide +kernel) (by decide +kernel) (by decide +kernel)
  simp only [List.forall_mem_cons, List.not_mem_nil, false_imp_iff, implies_true, and_true]
  refine ⟨?_, ?_, ?_, ?_, ?_, ?_, h31757755568855353,
    prime_75445702479781427272750846543864801⟩ <;>
    norm_num

open Primality in
theorem prime_fieldP : Nat.Prime fieldP := by
  refine @prime_of_factors fieldP 2 255
    [2, 2, 3, 65147, 74058212732561358302231226437062788676166966415465897661863160754340907] ?_
    (by decide +kernel) (by decide +kernel) (by decide +kernel) (by decide +kernel)
  simp only [List.forall_mem_cons, List.not_mem_nil, false_imp_iff, implies_true, and_true]
  refine ⟨?_, ?_, ?_, ?_, prime_largeFactor⟩ <;>
    norm_num

instance : Fact fieldP.Prime := ⟨prime_fieldP⟩

/-! ### Registers as field elements -/

/-- The element a register holds. -/
def toField (a : BitVec 255) : ZMod fieldP := (a.toNat : ZMod fieldP)

theorem Canonical.ext {a b : BitVec 255} (ha : Canonical a) (hb : Canonical b)
    (h : toField a = toField b) : a = b := by
  apply BitVec.eq_of_toNat_eq
  rw [toField, toField, ZMod.natCast_eq_natCast_iff', Nat.mod_eq_of_lt ha,
    Nat.mod_eq_of_lt hb] at h
  exact h

theorem Canonical.eq_iff {a b : BitVec 255} (ha : Canonical a) (hb : Canonical b) :
    toField a = toField b ↔ a = b :=
  ⟨ha.ext hb, congrArg toField⟩

@[simp] theorem toField_zero : toField 0 = 0 := Nat.cast_zero

@[simp] theorem toField_one : toField 1 = 1 := Nat.cast_one

theorem canonical_of_toNat_eq {a : BitVec 255} {n : ℕ} (h : a.toNat = n % fieldP) : Canonical a := by
  rw [Canonical, h]
  exact Nat.mod_lt _ prime_fieldP.pos

theorem toField_of_toNat_eq {a : BitVec 255} {n : ℕ} (h : a.toNat = n % fieldP) :
    toField a = (n : ZMod fieldP) := by
  rw [toField, h, ZMod.natCast_mod]

/-- Every element is in some register. -/
theorem exists_toField (x : ZMod fieldP) : ∃ a, Canonical a ∧ toField a = x := by
  have hlt := ZMod.val_lt x
  have hp : fieldP < 2 ^ 255 := by decide
  have hval : (BitVec.ofNat 255 x.val).toNat = x.val % fieldP := by
    rw [BitVec.toNat_ofNat, Nat.mod_eq_of_lt (Nat.lt_trans hlt hp), Nat.mod_eq_of_lt hlt]
  refine ⟨_, canonical_of_toNat_eq hval, ?_⟩
  rw [toField_of_toNat_eq hval, ZMod.natCast_zmod_val]

variable {a b : BitVec 255}

theorem toNat_mulModP (a b : BitVec 255) : (mulModP a b).toNat = a.toNat * b.toNat % fieldP := by
  have hp : fieldP < 2 ^ 255 := by decide
  rw [mulModP, BitVec.toNat_ofNat,
    Nat.mod_eq_of_lt (Nat.lt_trans (Nat.mod_lt _ prime_fieldP.pos) hp)]

@[simp] theorem canonical_mulModP (a b : BitVec 255) : Canonical (mulModP a b) :=
  regular_mulModP.canonical a b

@[simp] theorem toField_mulModP (a b : BitVec 255) :
    toField (mulModP a b) = toField a * toField b := by
  rw [toField_of_toNat_eq (toNat_mulModP a b), Nat.cast_mul]
  rfl

namespace Fe25519AuxCore

theorem canonical_addModP (ha : Canonical a) (hb : Canonical b) : Canonical (addModP a b) :=
  canonical_of_toNat_eq (toNat_addModP ha hb)

theorem toField_addModP (ha : Canonical a) (hb : Canonical b) :
    toField (addModP a b) = toField a + toField b := by
  rw [toField_of_toNat_eq (toNat_addModP ha hb), Nat.cast_add]
  rfl

theorem cast_sub_toNat (hb : Canonical b) :
    ((fieldP - b.toNat : ℕ) : ZMod fieldP) = -toField b := by
  rw [Nat.cast_sub (Nat.le_of_lt hb), ZMod.natCast_self, zero_sub]
  rfl

theorem canonical_subModP (ha : Canonical a) (hb : Canonical b) : Canonical (subModP a b) :=
  canonical_of_toNat_eq (toNat_subModP ha hb)

theorem toField_subModP (ha : Canonical a) (hb : Canonical b) :
    toField (subModP a b) = toField a - toField b := by
  rw [toField_of_toNat_eq (toNat_subModP ha hb), Nat.cast_add, cast_sub_toNat hb, sub_eq_add_neg]
  rfl

theorem canonical_negModP (ha : Canonical a) : Canonical (negModP a) :=
  canonical_of_toNat_eq (toNat_negModP ha)

theorem toField_negModP (ha : Canonical a) : toField (negModP a) = -toField a := by
  rw [toField_of_toNat_eq (toNat_negModP ha), cast_sub_toNat ha]

end Fe25519AuxCore

/-! ### The constants of the curve -/

theorem toField_pow_eq (a : BitVec 255) {n : ℕ} (h : n < 2 ^ 255) :
    toField a ^ n = ((Primality.powMod fieldP a.toNat 255 n : ℕ) : ZMod fieldP) :=
  (Primality.cast_powMod fieldP a.toNat h).symm

theorem canonical_ed25519D : Canonical ed25519D := by decide

theorem canonical_ed25519D2 : Canonical ed25519D2 := by decide

theorem canonical_ed25519SqrtM1 : Canonical ed25519SqrtM1 := by decide

theorem toField_ed25519D2 : toField ed25519D2 = toField ed25519D + toField ed25519D := by
  rw [← Fe25519AuxCore.toField_addModP canonical_ed25519D canonical_ed25519D]
  exact congrArg toField (by decide +kernel)

theorem toField_ed25519SqrtM1 : toField ed25519SqrtM1 * toField ed25519SqrtM1 = -1 := by
  rw [← toField_mulModP, ← toField_one, ← Fe25519AuxCore.toField_negModP (by decide)]
  exact congrArg toField (by decide +kernel)

/-- `d` is no square, by Euler's criterion. -/
theorem not_isSquare_ed25519D : ¬ IsSquare (toField ed25519D) := by
  have hne : toField ed25519D ≠ 0 := by
    rw [← toField_zero, Ne, canonical_ed25519D.eq_iff (by decide)]
    decide
  rw [ZMod.euler_criterion fieldP hne, toField_pow_eq _ (by decide), ← Nat.cast_one,
    ZMod.natCast_eq_natCast_iff']
  decide +kernel

/-- The curve of the point core. -/
def curve : Edwards.Curve (ZMod fieldP) where
  d := toField ed25519D
  i := toField ed25519SqrtM1
  i_mul_i := toField_ed25519SqrtM1
  two_ne_zero := by
    rw [Ne, ← Nat.cast_ofNat, ZMod.natCast_eq_zero_iff]
    decide
  not_isSquare := not_isSquare_ed25519D

/-! ### Points -/

/-- The coordinates as field elements. -/
def ExtPoint.toField (p : ExtPoint) : Edwards.Extended (ZMod fieldP) where
  x := Kv260Sigv.toField p.x
  y := Kv260Sigv.toField p.y
  z := Kv260Sigv.toField p.z
  t := Kv260Sigv.toField p.t

/-- All coordinates are below `p`. -/
structure CanonicalPoint (p : ExtPoint) : Prop where
  x : Canonical p.x
  y : Canonical p.y
  z : Canonical p.z
  t : Canonical p.t

/-- A valid extended point on the curve: `Z ≠ 0`, `X Y = Z T` and the equation
`-X² Z² + Y² Z² = Z⁴ + d X² Y²`, all mod `p`. -/
structure ValidPoint (p : ExtPoint) : Prop where
  canonical : CanonicalPoint p
  z_ne_zero : p.z ≠ 0
  segre : p.x.toNat * p.y.toNat % fieldP = p.z.toNat * p.t.toNat % fieldP
  on : p.y.toNat * p.y.toNat * (p.z.toNat * p.z.toNat) % fieldP =
    (p.z.toNat * p.z.toNat * (p.z.toNat * p.z.toNat) +
      p.x.toNat * p.x.toNat * (p.z.toNat * p.z.toNat) +
        ed25519D.toNat * (p.x.toNat * p.x.toNat) * (p.y.toNat * p.y.toNat)) % fieldP

theorem canonicalPoint_iff (p : ExtPoint) :
    CanonicalPoint p ↔ Canonical p.x ∧ Canonical p.y ∧ Canonical p.z ∧ Canonical p.t :=
  ⟨fun h => ⟨h.x, h.y, h.z, h.t⟩, fun h => ⟨h.1, h.2.1, h.2.2.1, h.2.2.2⟩⟩

instance (p : ExtPoint) : Decidable (CanonicalPoint p) :=
  decidable_of_iff' _ (canonicalPoint_iff p)

theorem validPoint_iff (p : ExtPoint) :
    ValidPoint p ↔ CanonicalPoint p ∧ p.z ≠ 0 ∧
      p.x.toNat * p.y.toNat % fieldP = p.z.toNat * p.t.toNat % fieldP ∧
        p.y.toNat * p.y.toNat * (p.z.toNat * p.z.toNat) % fieldP =
          (p.z.toNat * p.z.toNat * (p.z.toNat * p.z.toNat) +
            p.x.toNat * p.x.toNat * (p.z.toNat * p.z.toNat) +
              ed25519D.toNat * (p.x.toNat * p.x.toNat) * (p.y.toNat * p.y.toNat)) % fieldP :=
  ⟨fun h => ⟨h.canonical, h.z_ne_zero, h.segre, h.on⟩,
    fun h => ⟨h.1, h.2.1, h.2.2.1, h.2.2.2⟩⟩

instance (p : ExtPoint) : Decidable (ValidPoint p) := decidable_of_iff' _ (validPoint_iff p)

/-- The conditions on the registers are those on the field elements. -/
theorem validPoint_iff_toField {p : ExtPoint} (hp : CanonicalPoint p) :
    ValidPoint p ↔ p.toField.Valid curve := by
  have hz : p.z ≠ 0 ↔ toField p.z ≠ 0 := by
    rw [← toField_zero, Ne, Ne, hp.z.eq_iff (by decide)]
  have hsegre : p.x.toNat * p.y.toNat % fieldP = p.z.toNat * p.t.toNat % fieldP ↔
      toField p.x * toField p.y = toField p.z * toField p.t := by
    rw [← ZMod.natCast_eq_natCast_iff', Nat.cast_mul, Nat.cast_mul]
    rfl
  have hon : p.y.toNat * p.y.toNat * (p.z.toNat * p.z.toNat) % fieldP =
        (p.z.toNat * p.z.toNat * (p.z.toNat * p.z.toNat) +
          p.x.toNat * p.x.toNat * (p.z.toNat * p.z.toNat) +
            ed25519D.toNat * (p.x.toNat * p.x.toNat) * (p.y.toNat * p.y.toNat)) % fieldP ↔
      toField p.y * toField p.y * (toField p.z * toField p.z) =
        toField p.z * toField p.z * (toField p.z * toField p.z) +
          toField p.x * toField p.x * (toField p.z * toField p.z) +
            toField ed25519D * (toField p.x * toField p.x) * (toField p.y * toField p.y) := by
    rw [← ZMod.natCast_eq_natCast_iff']
    push_cast
    rfl
  rw [validPoint_iff, hz, hsegre, hon]
  constructor
  · rintro ⟨-, hne, hseg, hon⟩
    refine ⟨hne, hseg, ?_⟩
    simp only [ExtPoint.toField, curve]
    linear_combination hon
  · rintro ⟨hne, hseg, hon⟩
    refine ⟨hp, hne, hseg, ?_⟩
    simp only [ExtPoint.toField, curve] at hon
    linear_combination hon

theorem ValidPoint.exists_represents {p : ExtPoint} (hp : ValidPoint p) :
    ∃ P : Edwards.Point curve, p.toField.Represents P :=
  ((validPoint_iff_toField hp.canonical).mp hp).exists_represents

theorem validPoint_of_represents {p : ExtPoint} {P : Edwards.Point curve}
    (hp : CanonicalPoint p)
    (h : p.toField.Represents P) : ValidPoint p :=
  (validPoint_iff_toField hp).mpr h.valid

end Kv260Sigv
