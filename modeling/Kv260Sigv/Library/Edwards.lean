import Mathlib.Algebra.Field.Basic
import Mathlib.Algebra.Group.Even
import Mathlib.Tactic.FieldSimp
import Mathlib.Tactic.LinearCombination
import Mathlib.Tactic.Ring

/-!
# Twisted Edwards curves with `a = -1`

The curve `-x² + y² = 1 + d x² y²` over a field where `-1` is a square and `d` is not.
Its addition law has no exceptions: neither denominator vanishes on any pair of points
(`Curve.one_add_ne`, `Curve.one_sub_ne`), so that `Point.add` is a total function.

An implementation avoids divisions with extended coordinates `X : Y : Z : T`, where
`x = X / Z`, `y = Y / Z` and `x y = T / Z`.  `Represents` relates them to points, and
`Represents.add` and `Represents.double` say that the usual formulas compute the sum.
-/

set_option autoImplicit false

namespace Edwards

/-- The parameters of a curve. -/
structure Curve (F : Type*) [Field F] where
  d : F
  i : F
  i_mul_i : i * i = -1
  two_ne_zero : (2 : F) ≠ 0
  not_isSquare : ¬ IsSquare d

namespace Curve

variable {F : Type*} [Field F] (E : Curve F)

/-- The equation of the curve. -/
def On (x y : F) : Prop := -(x * x) + y * y = 1 + E.d * (x * x) * (y * y)

variable {E} {x y x₁ y₁ x₂ y₂ : F}

/-- The denominator of `x²` as a function of `y`. -/
theorem denominator_ne_zero (E : Curve F) (y : F) : E.d * (y * y) + 1 ≠ 0 := by
  intro h
  rcases eq_or_ne y 0 with rfl | hy
  · simp at h
  · refine E.not_isSquare ⟨E.i / y, ?_⟩
    field_simp
    linear_combination h - E.i_mul_i

theorem on_iff : E.On x y ↔ x * x * (E.d * (y * y) + 1) = y * y - 1 := by
  rw [On]
  constructor
  · intro h
    linear_combination -h
  · intro h
    linear_combination -h

/-- The products whose denominators would vanish do not occur: a root `e` of one is none of them. -/
theorem mul_ne_of_on (h₁ : E.On x₁ y₁) (h₂ : E.On x₂ y₂) {e : F} (he : e * e = 1) :
    E.d * x₁ * x₂ * y₁ * y₂ ≠ e := by
  intro hprod
  have hne : E.d * x₁ * x₂ * y₁ * y₂ ≠ 0 := by
    rw [hprod]
    exact left_ne_zero_of_mul_eq_one he
  have hx₁ : x₁ ≠ 0 := by rintro rfl; simp at hne
  have hy₁ : y₁ ≠ 0 := by rintro rfl; simp at hne
  have hy₂ : y₂ ≠ 0 := by rintro rfl; simp at hne
  -- both `i x₂ ± y₂` give a square that is `d` times a square
  have hplus : (E.i * x₁ + e * y₁) * (E.i * x₁ + e * y₁) =
      E.d * (x₁ * y₁ * (E.i * x₂ + y₂) * (x₁ * y₁ * (E.i * x₂ + y₂))) := by
    rw [On] at h₁ h₂
    rw [← hprod] at he ⊢
    linear_combination (x₁ * x₁ - E.d * (x₁ * y₁) * (x₁ * y₁) * (x₂ * x₂)) * E.i_mul_i +
      (y₁ * y₁ - 1) * he + h₁ - E.d * (x₁ * y₁) * (x₁ * y₁) * h₂
  have hminus : (E.i * x₁ - e * y₁) * (E.i * x₁ - e * y₁) =
      E.d * (x₁ * y₁ * (E.i * x₂ - y₂) * (x₁ * y₁ * (E.i * x₂ - y₂))) := by
    rw [On] at h₁ h₂
    rw [← hprod] at he ⊢
    linear_combination (x₁ * x₁ - E.d * (x₁ * y₁) * (x₁ * y₁) * (x₂ * x₂)) * E.i_mul_i +
      (y₁ * y₁ - 1) * he + h₁ - E.d * (x₁ * y₁) * (x₁ * y₁) * h₂
  have hsquare : ∀ s w : F, w ≠ 0 → s * s = E.d * (x₁ * y₁ * w * (x₁ * y₁ * w)) → False := by
    intro s w hw h
    refine E.not_isSquare ⟨s / (x₁ * y₁ * w), ?_⟩
    field_simp
    linear_combination -h
  rcases eq_or_ne (E.i * x₂ + y₂) 0 with hzero | hzero
  · refine hsquare _ (E.i * x₂ - y₂) ?_ hminus
    intro hzero'
    refine mul_ne_zero E.two_ne_zero hy₂ ?_
    linear_combination hzero - hzero'
  · exact hsquare _ _ hzero hplus

theorem one_add_ne (h₁ : E.On x₁ y₁) (h₂ : E.On x₂ y₂) : 1 + E.d * x₁ * x₂ * y₁ * y₂ ≠ 0 := by
  intro h
  refine mul_ne_of_on h₁ h₂ (show (-1 : F) * -1 = 1 by ring) ?_
  linear_combination h

theorem one_sub_ne (h₁ : E.On x₁ y₁) (h₂ : E.On x₂ y₂) : 1 - E.d * x₁ * x₂ * y₁ * y₂ ≠ 0 := by
  intro h
  refine mul_ne_of_on h₁ h₂ (show (1 : F) * 1 = 1 by ring) ?_
  linear_combination -h

end Curve

/-! ### Points -/

/-- An affine point. -/
@[ext]
structure Point {F : Type*} [Field F] (E : Curve F) where
  x : F
  y : F
  on : E.On x y

namespace Point

variable {F : Type*} [Field F] {E : Curve F}

/-- The sum of two points is on the curve. -/
theorem on_add (P Q : Point E) :
    E.On ((P.x * Q.y + P.y * Q.x) / (1 + E.d * P.x * Q.x * P.y * Q.y))
      ((P.y * Q.y + P.x * Q.x) / (1 - E.d * P.x * Q.x * P.y * Q.y)) := by
  obtain ⟨x₁, y₁, h₁⟩ := P
  obtain ⟨x₂, y₂, h₂⟩ := Q
  have hadd := Curve.one_add_ne h₁ h₂
  have hsub := Curve.one_sub_ne h₁ h₂
  rw [Curve.On] at h₁ h₂ ⊢
  simp only at hadd hsub ⊢
  -- with `s = y₁² - x₁² = 1 + α` and `t = y₂² - x₂² = 1 + β`, the equation is one in `α` and `β`
  have hpoly : ∀ α β : F, α = E.d * (x₁ * x₁) * (y₁ * y₁) → β = E.d * (x₂ * x₂) * (y₂ * y₂) →
      (y₁ * y₁ - x₁ * x₁) * (y₂ * y₂ - x₂ * x₂) * (1 + α * β) =
        (1 - α * β) * (1 - α * β) + α * ((y₂ * y₂ - x₂ * x₂) * (y₂ * y₂ - x₂ * x₂)) +
          β * ((y₁ * y₁ - x₁ * x₁) * (y₁ * y₁ - x₁ * x₁)) := by
    intro α β hα hβ
    have hs : y₁ * y₁ - x₁ * x₁ = 1 + α := by rw [hα]; linear_combination h₁
    have ht : y₂ * y₂ - x₂ * x₂ = 1 + β := by rw [hβ]; linear_combination h₂
    rw [hs, ht]
    ring
  have hpoly := hpoly _ _ rfl rfl
  generalize hplus : 1 + E.d * x₁ * x₂ * y₁ * y₂ = p at hadd ⊢
  generalize hminus : 1 - E.d * x₁ * x₂ * y₁ * y₂ = m at hsub ⊢
  field_simp
  rw [← hplus, ← hminus]
  linear_combination hpoly

/-- The sum on the curve. -/
def add (P Q : Point E) : Point E where
  x := (P.x * Q.y + P.y * Q.x) / (1 + E.d * P.x * Q.x * P.y * Q.y)
  y := (P.y * Q.y + P.x * Q.x) / (1 - E.d * P.x * Q.x * P.y * Q.y)
  on := on_add P Q

instance : Add (Point E) := ⟨add⟩

theorem add_x (P Q : Point E) :
    (P + Q).x = (P.x * Q.y + P.y * Q.x) / (1 + E.d * P.x * Q.x * P.y * Q.y) := rfl

theorem add_y (P Q : Point E) :
    (P + Q).y = (P.y * Q.y + P.x * Q.x) / (1 - E.d * P.x * Q.x * P.y * Q.y) := rfl

end Point

/-! ### Extended coordinates -/

/-- `X : Y : Z : T`. -/
structure Extended (F : Type*) where
  x : F
  y : F
  z : F
  t : F

namespace Extended

variable {F : Type*} [Field F]

/-- The coordinates stand for the point. -/
structure Represents {E : Curve F} (C : Extended F) (P : Point E) : Prop where
  z_ne_zero : C.z ≠ 0
  x : C.x = P.x * C.z
  y : C.y = P.y * C.z
  t : C.t = P.x * P.y * C.z

/-- The coordinates of a point: the conditions an implementation can check. -/
structure Valid (E : Curve F) (C : Extended F) : Prop where
  z_ne_zero : C.z ≠ 0
  segre : C.x * C.y = C.z * C.t
  on : (-(C.x * C.x) + C.y * C.y) * (C.z * C.z) =
    C.z * C.z * (C.z * C.z) + E.d * (C.x * C.x) * (C.y * C.y)

/-- The addition formulas, with `k = 2 d`. -/
def add (k : F) (C D : Extended F) : Extended F :=
  let a := (C.y - C.x) * (D.y - D.x)
  let b := (C.y + C.x) * (D.y + D.x)
  let c := C.t * D.t * k
  let d := C.z * D.z + C.z * D.z
  ⟨(b - a) * (d - c), (d + c) * (b + a), (d - c) * (d + c), (b - a) * (b + a)⟩

/-- The doubling formulas. -/
def double (C : Extended F) : Extended F :=
  let a := C.x * C.x
  let b := C.y * C.y
  let c := C.z * C.z + C.z * C.z
  let e := (C.x + C.y) * (C.x + C.y) - a - b
  ⟨e * (b - a - c), (b - a) * -(a + b), (b - a - c) * (b - a), e * -(a + b)⟩

variable {E : Curve F} {C D : Extended F} {P Q : Point E}

theorem Represents.valid (h : C.Represents P) : C.Valid E := by
  refine ⟨h.z_ne_zero, ?_, ?_⟩
  · rw [h.x, h.y, h.t]
    ring
  · have hon := P.on
    rw [Curve.On] at hon
    rw [h.x, h.y]
    linear_combination C.z ^ 4 * hon

theorem Valid.exists_represents (h : C.Valid E) : ∃ P : Point E, C.Represents P := by
  have hz := h.z_ne_zero
  have hon : E.On (C.x / C.z) (C.y / C.z) := by
    have h := h.on
    rw [Curve.On]
    field_simp
    linear_combination h
  refine ⟨⟨C.x / C.z, C.y / C.z, hon⟩, hz, ?_, ?_, ?_⟩
  · exact (div_mul_cancel₀ _ hz).symm
  · exact (div_mul_cancel₀ _ hz).symm
  · have h := h.segre
    field_simp
    linear_combination -h

/-- Coordinates stand for one point only. -/
theorem Represents.unique (hP : C.Represents P) (hQ : C.Represents Q) : P = Q := by
  ext
  · exact mul_right_cancel₀ hP.z_ne_zero (hP.x.symm.trans hQ.x)
  · exact mul_right_cancel₀ hP.z_ne_zero (hP.y.symm.trans hQ.y)

/-- Coordinates of one point are proportional. -/
theorem Represents.proportional (hC : C.Represents P) (hD : D.Represents P) :
    C.x * D.z = D.x * C.z ∧ C.y * D.z = D.y * C.z ∧ C.t * D.z = D.t * C.z := by
  rw [hC.x, hC.y, hC.t, hD.x, hD.y, hD.t]
  refine ⟨?_, ?_, ?_⟩ <;> ring

/-- The addition formulas, for any two points. -/
theorem Represents.add (hC : C.Represents P) (hD : D.Represents Q) :
    (Extended.add (E.d + E.d) C D).Represents (P + Q) := by
  have hplus := Curve.one_add_ne P.on Q.on
  have hminus := Curve.one_sub_ne P.on Q.on
  have hz := mul_ne_zero hC.z_ne_zero hD.z_ne_zero
  -- the four factors, each with `2 z₁ z₂` taken out
  have he : (C.y + C.x) * (D.y + D.x) - (C.y - C.x) * (D.y - D.x) =
      2 * (C.z * D.z) * (P.x * Q.y + P.y * Q.x) := by
    rw [hC.x, hC.y, hD.x, hD.y]
    ring
  have hh : (C.y + C.x) * (D.y + D.x) + (C.y - C.x) * (D.y - D.x) =
      2 * (C.z * D.z) * (P.y * Q.y + P.x * Q.x) := by
    rw [hC.x, hC.y, hD.x, hD.y]
    ring
  have hf : C.z * D.z + C.z * D.z - C.t * D.t * (E.d + E.d) =
      2 * (C.z * D.z) * (1 - E.d * P.x * Q.x * P.y * Q.y) := by
    rw [hC.t, hD.t]
    ring
  have hg : C.z * D.z + C.z * D.z + C.t * D.t * (E.d + E.d) =
      2 * (C.z * D.z) * (1 + E.d * P.x * Q.x * P.y * Q.y) := by
    rw [hC.t, hD.t]
    ring
  simp only [Extended.add]
  rw [he, hh, hf, hg]
  refine ⟨?_, ?_, ?_, ?_⟩
  · exact mul_ne_zero (mul_ne_zero (mul_ne_zero E.two_ne_zero hz) hminus)
      (mul_ne_zero (mul_ne_zero E.two_ne_zero hz) hplus)
  · rw [Point.add_x]
    simp only
    rw [div_mul_eq_mul_div, eq_div_iff hplus]
    ring
  · rw [Point.add_y]
    simp only
    rw [div_mul_eq_mul_div, eq_div_iff hminus]
    ring
  · rw [Point.add_x, Point.add_y]
    simp only
    rw [div_mul_div_comm, div_mul_eq_mul_div, eq_div_iff (mul_ne_zero hplus hminus)]
    ring

/-- The doubling formulas, for any point. -/
theorem Represents.double (hC : C.Represents P) : C.double.Represents (P + P) := by
  have hplus := Curve.one_add_ne P.on P.on
  have hminus := Curve.one_sub_ne P.on P.on
  have hon := P.on
  rw [Curve.On] at hon
  have hz := mul_ne_zero hC.z_ne_zero hC.z_ne_zero
  -- the equation of the curve turns `y² - x²` into a denominator
  have he : (C.x + C.y) * (C.x + C.y) - C.x * C.x - C.y * C.y =
      C.z * C.z * (P.x * P.y + P.y * P.x) := by
    rw [hC.x, hC.y]
    ring
  have hg : C.y * C.y - C.x * C.x =
      C.z * C.z * (1 + E.d * P.x * P.x * P.y * P.y) := by
    rw [hC.x, hC.y]
    linear_combination C.z * C.z * hon
  have hf : C.z * C.z * (1 + E.d * P.x * P.x * P.y * P.y) - (C.z * C.z + C.z * C.z) =
      -(C.z * C.z * (1 - E.d * P.x * P.x * P.y * P.y)) := by
    ring
  have hh : C.x * C.x + C.y * C.y = C.z * C.z * (P.y * P.y + P.x * P.x) := by
    rw [hC.x, hC.y]
    ring
  simp only [Extended.double]
  rw [he, hg, hf, hh]
  refine ⟨?_, ?_, ?_, ?_⟩
  · exact mul_ne_zero (neg_ne_zero.mpr (mul_ne_zero hz hminus)) (mul_ne_zero hz hplus)
  · rw [Point.add_x]
    simp only
    rw [div_mul_eq_mul_div, eq_div_iff hplus]
    ring
  · rw [Point.add_y]
    simp only
    rw [div_mul_eq_mul_div, eq_div_iff hminus]
    ring
  · rw [Point.add_x, Point.add_y]
    simp only
    rw [div_mul_div_comm, div_mul_eq_mul_div, eq_div_iff (mul_ne_zero hplus hminus)]
    ring

end Extended

end Edwards
