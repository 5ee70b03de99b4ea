import Mathlib.Algebra.BigOperators.Intervals
import Mathlib.Algebra.BigOperators.Ring.Finset
import Mathlib.Algebra.Order.BigOperators.Group.Finset
import Mathlib.Tactic.Ring

/-!
# Limbs

A long integer as digits in base `2 ^ w`.  `limb w x i` is digit `i` of `x` and
`value w n f` the integer with digits `f 0, …, f (n - 1)`, which may exceed the
base: lazy arithmetic keeps carries in the digits and settles them later.
-/

namespace Limbs

open Finset

/-- Digit `i` of `x` in base `2 ^ w`. -/
def limb (w x i : ℕ) : ℕ := x / 2 ^ (w * i) % 2 ^ w

/-- The integer with the given digits. -/
def value (w n : ℕ) (f : ℕ → ℕ) : ℕ := ∑ i ∈ range n, f i * 2 ^ (w * i)

theorem limb_lt (w x i : ℕ) : limb w x i < 2 ^ w := Nat.mod_lt _ (Nat.two_pow_pos w)

@[simp] theorem value_zero (w : ℕ) (f : ℕ → ℕ) : value w 0 f = 0 := rfl

theorem value_succ (w n : ℕ) (f : ℕ → ℕ) :
    value w (n + 1) f = value w n f + f n * 2 ^ (w * n) := sum_range_succ _ _

theorem value_congr {w n : ℕ} {f g : ℕ → ℕ} (h : ∀ i < n, f i = g i) :
    value w n f = value w n g := by
  refine sum_congr rfl ?_
  intro i hi
  rw [h i (mem_range.mp hi)]

/-- The low `n` digits are the number modulo `2 ^ (w * n)`. -/
theorem value_limb (w x n : ℕ) : value w n (limb w x) = x % 2 ^ (w * n) := by
  induction n with
  | zero => simp [Nat.mod_one]
  | succ n ih =>
      rw [value_succ, ih, limb, Nat.mul_succ, pow_add, Nat.mod_mul]
      ring

theorem value_limb_of_lt {w x n : ℕ} (h : x < 2 ^ (w * n)) : value w n (limb w x) = x := by
  rw [value_limb, Nat.mod_eq_of_lt h]

/-- Proper digits give a number below the next power. -/
theorem value_lt {w n : ℕ} {f : ℕ → ℕ} (h : ∀ i < n, f i < 2 ^ w) :
    value w n f < 2 ^ (w * n) := by
  induction n with
  | zero => simp
  | succ n ih =>
      have hlow := ih fun i hi => h i (by omega)
      have htop := h n (by omega)
      rw [value_succ, Nat.mul_succ, pow_add]
      calc value w n f + f n * 2 ^ (w * n)
          < 2 ^ (w * n) + f n * 2 ^ (w * n) := Nat.add_lt_add_right hlow _
        _ = (f n + 1) * 2 ^ (w * n) := by ring
        _ ≤ 2 ^ w * 2 ^ (w * n) := Nat.mul_le_mul_right _ htop
        _ = 2 ^ (w * n) * 2 ^ w := Nat.mul_comm _ _

/-- Low digits and high digits. -/
theorem value_add (w m n : ℕ) (f : ℕ → ℕ) :
    value w (m + n) f = value w m f + 2 ^ (w * m) * value w n fun i => f (m + i) := by
  induction n with
  | zero => simp
  | succ n ih =>
      rw [← Nat.add_assoc, value_succ, ih, value_succ, Nat.mul_add w m n, pow_add]
      ring

/-- A number with proper digits has these digits. -/
theorem limb_value {w n i : ℕ} {f : ℕ → ℕ} (h : ∀ i < n, f i < 2 ^ w) (hi : i < n) :
    limb w (value w n f) i = f i := by
  obtain ⟨m, rfl⟩ : ∃ m, n = i + (1 + m) := ⟨n - i - 1, by omega⟩
  have hlow : value w i f < 2 ^ (w * i) := value_lt fun j hj => h j (by omega)
  have hone : value w 1 (fun j => f (i + j)) = f i := by simp [value_succ]
  rw [limb, value_add, Nat.add_mul_div_left _ _ (Nat.two_pow_pos _), Nat.div_eq_of_lt hlow,
    Nat.zero_add, value_add, hone, Nat.mul_one, Nat.add_mul_mod_self_left,
    Nat.mod_eq_of_lt (h i hi)]

/-! ### Products -/

/-- What row `i` of the schoolbook product adds to column `k`, when its first `n`
terms have been formed. -/
def row (a b : ℕ → ℕ) (i n k : ℕ) : ℕ := if i ≤ k ∧ k < i + n then a i * b (k - i) else 0

/-- Column `k` of the first `m` rows. -/
def column (a b : ℕ → ℕ) (m n k : ℕ) : ℕ := ∑ i ∈ range m, row a b i n k

theorem value_add_fun (w n : ℕ) (f g : ℕ → ℕ) :
    value w n (fun i => f i + g i) = value w n f + value w n g := by
  simp only [value, Nat.add_mul, sum_add_distrib]

theorem value_row {w m n i : ℕ} (a b : ℕ → ℕ) (hi : i < m) :
    value w (m + n) (row a b i n) = a i * 2 ^ (w * i) * value w n b := by
  obtain ⟨r, rfl⟩ : ∃ r, m = i + r := ⟨m - i, by omega⟩
  have hlow : value w i (row a b i n) = 0 := by
    refine sum_eq_zero ?_
    intro k hk
    have := mem_range.mp hk
    rw [row, if_neg (by omega), Nat.zero_mul]
  have hmid : value w n (fun k => row a b i n (i + k)) = a i * value w n b := by
    rw [value, value, mul_sum]
    refine sum_congr rfl ?_
    intro k hk
    have := mem_range.mp hk
    rw [row, if_pos (by omega), Nat.add_sub_cancel_left, Nat.mul_assoc]
  have hhigh : value w r (fun k => row a b i n (i + (n + k))) = 0 := by
    refine sum_eq_zero ?_
    intro k _
    show row a b i n (i + (n + k)) * _ = 0
    rw [row, if_neg (by omega), Nat.zero_mul]
  rw [show i + r + n = i + (n + r) by omega, value_add, hlow, value_add, hmid, hhigh]
  ring

/-- The columns of the schoolbook product are the product. -/
theorem value_column (w m n : ℕ) (a b : ℕ → ℕ) :
    value w (m + n) (column a b m n) = value w m a * value w n b := by
  have hpartial : ∀ k ≤ m, value w (m + n) (column a b k n) = value w k a * value w n b := by
    intro k
    induction k with
    | zero =>
        intro _
        simp [column, value]
    | succ k ih =>
        intro hk
        have hsplit : column a b (k + 1) n = fun c => column a b k n c + row a b k n c := by
          funext c
          exact sum_range_succ _ _
        rw [hsplit, value_add_fun, ih (by omega), value_row a b (show k < m by omega), value_succ]
        ring
  exact hpartial m le_rfl

end Limbs
