import Mathlib.Algebra.Field.Basic
import Mathlib.Tactic.LinearCombination
import Mathlib.Tactic.Ring

/-!
# Square roots of quotients

In a field with `8 n + 5` elements one power decides whether `u / v` is a square and
yields its root: `candidate n u v` is a root of `u / v` or of `-u / v` when `u / v` has a
root, and a root of `-1` leads from the second to the first.  There is no division.
-/

set_option autoImplicit false

namespace QuotientRoot

variable {F : Type*} [Field F] {n : ℕ} {i u v x : F}

/-- The candidate. -/
def candidate (n : ℕ) (u v : F) : F := u * v ^ 3 * (u * v ^ 7) ^ n

theorem mul_candidate_sq (n : ℕ) (u v : F) :
    v * (candidate n u v * candidate n u v) = u * (u * v ^ 7) ^ (2 * n + 1) := by
  rw [candidate]
  ring

/-- Where there is a root, the candidate is one up to a factor that is a root of `±1`. -/
theorem candidate_of_root (hunit : ∀ y : F, y ≠ 0 → y ^ (8 * n + 4) = 1) (hv : v ≠ 0)
    (hx : x * x * v = u) :
    v * (candidate n u v * candidate n u v) = u ∨
      v * (candidate n u v * candidate n u v) = -u := by
  rw [mul_candidate_sq]
  rcases eq_or_ne x 0 with rfl | hne
  · left
    rw [← hx]
    ring
  · -- the power is one of `(x v⁴)²`, whose square is the power of a unit
    have hsquare : u * v ^ 7 = (x * v ^ 4) ^ 2 := by
      rw [← hx]
      ring
    have hone : (u * v ^ 7) ^ (2 * n + 1) * (u * v ^ 7) ^ (2 * n + 1) = 1 := by
      rw [← pow_add, hsquare, ← pow_mul, show 2 * (2 * n + 1 + (2 * n + 1)) = 8 * n + 4 by ring]
      exact hunit _ (mul_ne_zero hne (pow_ne_zero 4 hv))
    rcases mul_self_eq_one_iff.mp hone with hpow | hpow
    · left
      rw [hpow, mul_one]
    · right
      rw [hpow, mul_neg, mul_one]

/-- The two tests decide whether there is a root. -/
theorem exists_root_iff (hunit : ∀ y : F, y ≠ 0 → y ^ (8 * n + 4) = 1) (hi : i * i = -1)
    (hv : v ≠ 0) :
    (∃ x, x * x * v = u) ↔ v * (candidate n u v * candidate n u v) = u ∨
      v * (candidate n u v * candidate n u v) = -u := by
  constructor
  · rintro ⟨x, hx⟩
    exact candidate_of_root hunit hv hx
  · rintro (h | h)
    · exact ⟨candidate n u v, by linear_combination h⟩
    · refine ⟨candidate n u v * i, ?_⟩
      linear_combination candidate n u v * candidate n u v * v * hi - h

end QuotientRoot
