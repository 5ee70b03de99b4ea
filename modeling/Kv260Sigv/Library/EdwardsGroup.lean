import Kv260Sigv.Library.Edwards
import Mathlib.Algebra.Group.Defs
import Mathlib.Tactic.Abel

/-!
# The group of a twisted Edwards curve

With its complete addition law the curve is an abelian group.  Only associativity needs an
argument: crosswise the `x` of both sides agree (`Curve.assoc_cross`), and the point
`(i, 0)` of order four, which exchanges the coordinates up to `i`, carries this over to
the `y`.

Doubling a point three times gives the neutral element for eight points at most; they are
told by their coordinates (`Point.eight_nsmul_eq_zero_iff`).
-/

set_option autoImplicit false

namespace Edwards

variable {F : Type*} [Field F] {E : Curve F}

/-- Crosswise the two sides of associativity agree in `x`. -/
theorem Curve.assoc_cross {x₁ y₁ x₂ y₂ x₃ y₃ : F} (h₁ : E.On x₁ y₁) (h₂ : E.On x₂ y₂)
    (h₃ : E.On x₃ y₃) :
    ((x₁ * y₂ + y₁ * x₂) * y₃ * (1 - E.d * x₁ * x₂ * y₁ * y₂) +
        (y₁ * y₂ + x₁ * x₂) * x₃ * (1 + E.d * x₁ * x₂ * y₁ * y₂)) *
      ((1 + E.d * x₂ * x₃ * y₂ * y₃) * (1 - E.d * x₂ * x₃ * y₂ * y₃) +
        E.d * x₁ * (x₂ * y₃ + y₂ * x₃) * y₁ * (y₂ * y₃ + x₂ * x₃)) =
    (x₁ * (y₂ * y₃ + x₂ * x₃) * (1 + E.d * x₂ * x₃ * y₂ * y₃) +
        y₁ * (x₂ * y₃ + y₂ * x₃) * (1 - E.d * x₂ * x₃ * y₂ * y₃)) *
      ((1 + E.d * x₁ * x₂ * y₁ * y₂) * (1 - E.d * x₁ * x₂ * y₁ * y₂) +
        E.d * (x₁ * y₂ + y₁ * x₂) * x₃ * (y₁ * y₂ + x₁ * x₂) * y₃) := by
  rw [On] at h₁ h₂ h₃
  -- with `u = x y` and `w = x² + y²` the difference is linear in each `w`, and the equation
  -- takes `w x` to `2 u y - (1 + d u²) x` and `w y` to `2 u x + (1 + d u²) y`
  linear_combination E.d * (x₂ * y₂) * (
      -(x₃ * y₃) * (-x₁ * (y₂ * y₃ + x₂ * x₃) * (1 + E.d * x₂ * x₃ * y₂ * y₃) +
        y₁ * (x₂ * y₃ + y₂ * x₃) * (1 - E.d * x₂ * x₃ * y₂ * y₃)) * h₁ +
      E.d * (x₁ * y₁) * (x₃ * y₃) *
        (x₁ * y₁ * (-(x₁ * y₂ * y₃) + y₁ * x₂ * y₃ + y₁ * y₂ * x₃ - x₁ * x₂ * x₃) -
          x₃ * y₃ * (-(y₁ * y₂ * x₃) + y₁ * x₂ * y₃ + x₁ * y₂ * y₃ - x₁ * x₂ * x₃)) * h₂ +
      (E.d * (x₁ * y₁) * (x₂ * y₂) *
        (x₁ * y₁ * (-(x₁ * y₂ * y₃) - y₁ * x₂ * y₃ - y₁ * y₂ * x₃ - x₁ * x₂ * x₃) -
          x₃ * y₃ * (y₁ * y₂ * x₃ - y₁ * x₂ * y₃ + x₁ * y₂ * y₃ - x₁ * x₂ * x₃)) +
        x₁ * y₁ * (x₁ * (y₂ * y₃ - x₂ * x₃) * (1 + E.d * x₂ * x₃ * y₂ * y₃) +
          y₁ * (x₂ * y₃ - y₂ * x₃) * (1 - E.d * x₂ * x₃ * y₂ * y₃))) * h₃)

namespace Point

/-! ### Neutral element and negation -/

/-- The neutral element. -/
def zero : Point E where
  x := 0
  y := 1
  on := by simp [Curve.On]

/-- Negation turns `x` over. -/
def neg (P : Point E) : Point E where
  x := -P.x
  y := P.y
  on := by simpa [Curve.On] using P.on

instance : Zero (Point E) := ⟨zero⟩

instance : Neg (Point E) := ⟨neg⟩

@[simp] theorem zero_x : (0 : Point E).x = 0 := rfl

@[simp] theorem zero_y : (0 : Point E).y = 1 := rfl

@[simp] theorem neg_x (P : Point E) : (-P).x = -P.x := rfl

@[simp] theorem neg_y (P : Point E) : (-P).y = P.y := rfl

theorem comm (P Q : Point E) : P + Q = Q + P := by
  ext
  · rw [add_x, add_x]
    congr 1 <;> ring
  · rw [add_y, add_y]
    congr 1 <;> ring

theorem zero_add' (P : Point E) : 0 + P = P := by
  ext <;> simp [add_x, add_y]

theorem neg_add' (P : Point E) : -P + P = 0 := by
  have hon := P.on
  have hminus := Curve.one_sub_ne (-P).on P.on
  rw [Curve.On] at hon
  ext
  · rw [add_x, neg_x, neg_y, zero_x]
    ring
  · rw [add_y, zero_y, div_eq_one_iff_eq hminus, neg_x, neg_y]
    linear_combination hon

/-! ### Associativity -/

/-- The `x` of a sum of three, with one denominator. -/
theorem add_add_x (P Q R : Point E) : (P + Q + R).x =
    ((P.x * Q.y + P.y * Q.x) * R.y * (1 - E.d * P.x * Q.x * P.y * Q.y) +
        (P.y * Q.y + P.x * Q.x) * R.x * (1 + E.d * P.x * Q.x * P.y * Q.y)) /
      ((1 + E.d * P.x * Q.x * P.y * Q.y) * (1 - E.d * P.x * Q.x * P.y * Q.y) +
        E.d * (P.x * Q.y + P.y * Q.x) * R.x * (P.y * Q.y + P.x * Q.x) * R.y) ∧
    (1 + E.d * P.x * Q.x * P.y * Q.y) * (1 - E.d * P.x * Q.x * P.y * Q.y) +
        E.d * (P.x * Q.y + P.y * Q.x) * R.x * (P.y * Q.y + P.x * Q.x) * R.y ≠ 0 := by
  have hplus := Curve.one_add_ne P.on Q.on
  have hminus := Curve.one_sub_ne P.on Q.on
  have hsum := Curve.one_add_ne (P + Q).on R.on
  rw [add_x (P + Q)]
  rw [add_x, add_y] at hsum ⊢
  generalize 1 + E.d * P.x * Q.x * P.y * Q.y = a at hplus hsum ⊢
  generalize 1 - E.d * P.x * Q.x * P.y * Q.y = b at hminus hsum ⊢
  generalize P.x * Q.y + P.y * Q.x = x at hsum ⊢
  generalize P.y * Q.y + P.x * Q.x = y at hsum ⊢
  have hfactor : 1 + E.d * (x / a) * R.x * (y / b) * R.y =
      (a * b + E.d * x * R.x * y * R.y) / (a * b) := by
    field_simp
  rw [hfactor] at hsum ⊢
  have hne := (div_ne_zero_iff.mp hsum).1
  refine ⟨?_, hne⟩
  field_simp

theorem add_assoc_x (P Q R : Point E) : (P + Q + R).x = (P + (Q + R)).x := by
  have hcross := Curve.assoc_cross P.on Q.on R.on
  rw [comm P (Q + R), comm Q R]
  obtain ⟨hleft, hne⟩ := add_add_x P Q R
  obtain ⟨hright, hne'⟩ := add_add_x R Q P
  rw [hleft, hright, div_eq_div_iff hne hne']
  linear_combination hcross

/-- The sum with the point `(i, 0)`. -/
def turn (P : Point E) : Point E where
  x := E.i * P.y
  y := E.i * P.x
  on := by
    have hon := P.on
    rw [Curve.On] at hon ⊢
    linear_combination hon + (P.x * P.x - P.y * P.y -
      E.d * (P.x * P.x) * (P.y * P.y) * (E.i * E.i - 1)) * E.i_mul_i

theorem add_turn (P Q : Point E) : P + Q.turn = (P + Q).turn := by
  have hplus : 1 + E.d * P.x * (E.i * Q.y) * P.y * (E.i * Q.x) =
      1 - E.d * P.x * Q.x * P.y * Q.y := by
    linear_combination E.d * P.x * Q.x * P.y * Q.y * E.i_mul_i
  have hminus : 1 - E.d * P.x * (E.i * Q.y) * P.y * (E.i * Q.x) =
      1 + E.d * P.x * Q.x * P.y * Q.y := by
    linear_combination -(E.d * P.x * Q.x * P.y * Q.y) * E.i_mul_i
  ext
  · rw [add_x]
    dsimp only [turn]
    rw [hplus, add_y, ← mul_div_assoc]
    congr 1
    ring
  · rw [add_y]
    dsimp only [turn]
    rw [hminus, add_x, ← mul_div_assoc]
    congr 1
    ring

theorem add_assoc' (P Q R : Point E) : P + Q + R = P + (Q + R) := by
  have hi : E.i ≠ 0 := by
    intro h
    have hsq := E.i_mul_i
    rw [h, zero_mul] at hsq
    exact one_ne_zero (neg_eq_zero.mp hsq.symm)
  ext
  · exact add_assoc_x P Q R
  · have hturn := add_assoc_x P Q R.turn
    rw [add_turn, add_turn, add_turn] at hturn
    exact mul_left_cancel₀ hi hturn

instance : AddCommGroup (Point E) where
  add_assoc := add_assoc'
  zero_add := zero_add'
  add_zero P := by rw [comm, zero_add']
  nsmul := nsmulRec
  zsmul := zsmulRec
  neg_add_cancel := neg_add'
  add_comm := comm

/-! ### The points of small order -/

theorem eq_zero_iff (P : Point E) : P = 0 ↔ P.x = 0 ∧ P.y = 1 :=
  ⟨fun h => by rw [h]; exact ⟨rfl, rfl⟩, fun h => Point.ext h.1 h.2⟩

/-- No point has `x² = y²`, but for zero denominators. -/
theorem two_nsmul_eq_zero_iff (P : Point E) : P + P = 0 ↔ P.x = 0 := by
  have hplus := Curve.one_add_ne P.on P.on
  have hminus := Curve.one_sub_ne P.on P.on
  have hon := P.on
  rw [Curve.On] at hon
  rw [eq_zero_iff, add_x, add_y, div_eq_zero_iff, or_iff_left hplus, div_eq_one_iff_eq hminus]
  constructor
  · rintro ⟨hx, hy⟩
    have hprod : 2 * (P.x * P.y) = 0 := by linear_combination hx
    rcases mul_eq_zero.mp ((mul_eq_zero.mp hprod).resolve_left E.two_ne_zero) with h | h
    · exact h
    · -- with `y = 0` the equation gives `x² = -1`, the denominator `x² = 1`
      rw [h] at hon hy
      exact absurd (show (2 : F) = 0 by linear_combination -hon - hy) E.two_ne_zero
  · intro h
    rw [h] at hon ⊢
    exact ⟨by ring, by linear_combination hon⟩

theorem add_self_x_eq_zero_iff (P : Point E) : (P + P).x = 0 ↔ P.x = 0 ∨ P.y = 0 := by
  have hplus := Curve.one_add_ne P.on P.on
  rw [add_x, div_eq_zero_iff, or_iff_left hplus, mul_comm P.y, ← two_mul, mul_eq_zero,
    or_iff_right E.two_ne_zero, mul_eq_zero]

theorem add_self_y_eq_zero_iff (P : Point E) : (P + P).y = 0 ↔ P.x * P.x + P.y * P.y = 0 := by
  have hminus := Curve.one_sub_ne P.on P.on
  rw [add_y, div_eq_zero_iff, or_iff_left hminus, add_comm]

/-- The eight points. -/
theorem eight_nsmul_eq_zero_iff (P : Point E) :
    8 • P = 0 ↔ P.x = 0 ∨ P.y = 0 ∨ P.x * P.x + P.y * P.y = 0 := by
  have height : 8 • P = (P + P + (P + P)) + (P + P + (P + P)) := by abel
  rw [height, two_nsmul_eq_zero_iff, add_self_x_eq_zero_iff, add_self_x_eq_zero_iff,
    add_self_y_eq_zero_iff, or_assoc]

/-- Of the points with `x² + y² = 0` all have one `y²`. -/
theorem y_sq_eq {P Q : Point E} (hP : P.x * P.x + P.y * P.y = 0)
    (hQ : Q.x * Q.x + Q.y * Q.y = 0) : P.y * P.y = Q.y * Q.y := by
  have honP := P.on
  have honQ := Q.on
  rw [Curve.On] at honP honQ
  -- both are roots of `d t² + 2 t = 1`, and the other root makes `d` a square
  have hroot : (P.y * P.y - Q.y * Q.y) * (E.d * (P.y * P.y + Q.y * Q.y) + 2) = 0 := by
    linear_combination honP - honQ + (1 + E.d * P.y * P.y) * hP - (1 + E.d * Q.y * Q.y) * hQ
  rcases mul_eq_zero.mp hroot with h | h
  · exact sub_eq_zero.mp h
  · exfalso
    have hprod : E.d * (P.y * Q.y) * (P.y * Q.y) = -1 := by
      linear_combination (P.y * P.y) * h - honP - (1 + E.d * P.y * P.y) * hP
    have hne : P.y * Q.y ≠ 0 := by
      intro hzero
      rw [hzero, mul_zero] at hprod
      exact one_ne_zero (neg_eq_zero.mp hprod.symm)
    refine E.not_isSquare ⟨E.i / (P.y * Q.y), ?_⟩
    rw [div_mul_div_comm, E.i_mul_i, eq_div_iff (mul_ne_zero hne hne)]
    linear_combination hprod

end Point

end Edwards
