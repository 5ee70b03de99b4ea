import Mathlib.Algebra.BigOperators.Group.Finset.Basic
import Mathlib.Algebra.BigOperators.Intervals
import Mathlib.Tactic.Linarith
import Mathlib.Tactic.Ring

/-!
# Signed digits with a window

An integer is written with digits for the powers of two of which each is zero or odd and
of small size, and after each nonzero one several are zero.  The lowest digit of an odd
number is its residue nearest to zero modulo `2 ^ w`, and the rest goes on with half of what
is left.
-/

set_option autoImplicit false

namespace Wnaf

variable {w m : ℕ} {n : ℤ}

/-- The lowest digit. -/
def digit (w : ℕ) (n : ℤ) : ℤ := if n % 2 = 1 then n.bmod (2 ^ w) else 0

/-- What the other digits stand for. -/
def next (w : ℕ) (n : ℤ) : ℤ := (n - digit w n) / 2

/-- What is left after `i` digits. -/
def rest (w : ℕ) (n : ℤ) : ℕ → ℤ
  | 0 => n
  | i + 1 => next w (rest w n i)

/-- The digits. -/
def digits (w : ℕ) (n : ℤ) (i : ℕ) : ℤ := digit w (rest w n i)

/-! ### One digit -/

theorem digit_of_even (h : n % 2 = 0) : digit w n = 0 := by
  rw [digit, if_neg (by rw [h]; decide)]

theorem digit_of_odd (h : n % 2 = 1) : digit w n = n.bmod (2 ^ w) := if_pos h

/-- The low bits decide. -/
theorem digit_emod (hw : 1 ≤ w) (n : ℤ) : digit w (n % 2 ^ w) = digit w n := by
  have hparity : n % 2 ^ w % 2 = n % 2 :=
    Int.emod_emod_of_dvd n (dvd_pow_self 2 (Nat.one_le_iff_ne_zero.mp hw))
  have hresidue := Int.emod_bmod n (2 ^ w)
  rw [Nat.cast_pow, Nat.cast_two] at hresidue
  rw [digit, digit, hparity, hresidue]

/-- A nonzero digit leaves a multiple of `2 ^ w`. -/
theorem dvd_sub_digit (h : n % 2 = 1) : (2 : ℤ) ^ w ∣ n - digit w n := by
  rw [digit_of_odd h]
  have hdvd := Int.dvd_self_sub_bmod (x := n) (m := 2 ^ w)
  rwa [Nat.cast_pow] at hdvd

theorem two_dvd_sub_digit (hw : 1 ≤ w) : 2 ∣ n - digit w n := by
  rcases Int.emod_two_eq_zero_or_one n with heven | hodd
  · rw [digit_of_even heven, sub_zero]
    exact Int.dvd_of_emod_eq_zero heven
  · exact (dvd_pow_self 2 (Nat.one_le_iff_ne_zero.mp hw)).trans (dvd_sub_digit hodd)

theorem two_mul_next (hw : 1 ≤ w) (n : ℤ) : 2 * next w n + digit w n = n := by
  rw [next, Int.mul_ediv_cancel' (two_dvd_sub_digit hw), sub_add_cancel]

/-- The digit of an odd number is odd. -/
theorem digit_odd (hw : 1 ≤ w) (h : n % 2 = 1) : digit w n % 2 = 1 := by
  obtain ⟨k, hk⟩ := two_dvd_sub_digit (n := n) hw
  omega

theorem digit_eq_zero_or_odd (hw : 1 ≤ w) (n : ℤ) : digit w n = 0 ∨ digit w n % 2 = 1 := by
  rcases Int.emod_two_eq_zero_or_one n with heven | hodd
  · exact .inl (digit_of_even heven)
  · exact .inr (digit_odd hw hodd)

theorem two_pow_eq (hw : 1 ≤ w) : (2 : ℤ) ^ w = 2 * 2 ^ (w - 1) := by
  rw [← pow_succ', Nat.sub_add_cancel hw]

/-- The size of a digit is less than half of the window. -/
theorem abs_digit_lt (hw : 2 ≤ w) (n : ℤ) : |digit w n| < 2 ^ (w - 1) := by
  have hpow := two_pow_eq (w := w) (by omega)
  have hhalf := two_pow_eq (w := w - 1) (by omega)
  have hpos : (0 : ℤ) < 2 ^ (w - 1) := by positivity
  rcases Int.emod_two_eq_zero_or_one n with heven | hodd
  · rw [digit_of_even heven, abs_zero]
    exact hpos
  · have hdigit := digit_odd (w := w) (by omega) hodd
    rw [digit_of_odd hodd] at hdigit ⊢
    have hlow := Int.le_bmod (x := n) (m := 2 ^ w) (by positivity)
    have hhigh := Int.bmod_lt (x := n) (m := 2 ^ w) (by positivity)
    rw [Nat.cast_pow, Nat.cast_two] at hlow hhigh
    -- the lower end is even
    rw [abs_lt]
    omega

/-! ### What is left -/

/-- A digit is the residue, or below it. -/
theorem digit_le (hn : 0 ≤ n) : digit w n ≤ n := by
  rcases Int.emod_two_eq_zero_or_one n with heven | hodd
  · rw [digit_of_even heven]
    exact hn
  · have hsplit := Int.emod_add_mul_ediv n ((2 ^ w : ℕ) : ℤ)
    have hquotient : 0 ≤ ((2 ^ w : ℕ) : ℤ) * (n / ((2 ^ w : ℕ) : ℤ)) := by positivity
    rw [digit_of_odd hodd, Int.bmod_eq_emod]
    split
    · omega
    · omega

theorem next_nonneg (hw : 1 ≤ w) (hn : 0 ≤ n) : 0 ≤ next w n := by
  have hle := digit_le (w := w) hn
  have hnext := two_mul_next hw n
  omega

/-- A bound by a power of two is halved. -/
theorem next_le (hw : 2 ≤ w) (h : n ≤ 2 ^ (m + 1)) : next w n ≤ 2 ^ m := by
  have hnext := two_mul_next (w := w) (by omega) n
  have hdigit := (abs_lt.mp (abs_digit_lt hw n)).1
  have hpow := two_pow_eq (w := w) (by omega)
  have hbound : (2 : ℤ) ^ (m + 1) = 2 * 2 ^ m := pow_succ' 2 m
  rcases Int.emod_two_eq_zero_or_one n with heven | hodd
  · rw [digit_of_even heven] at hnext
    omega
  · by_contra hlt
    -- the multiple of the window next to `n` is beyond the bound
    have hdvd : (2 : ℤ) ^ w ∣ 2 * next w n := by
      have hdvd := dvd_sub_digit (w := w) hodd
      rwa [show n - digit w n = 2 * next w n by omega] at hdvd
    rcases Nat.lt_or_ge m (w - 1) with hsmall | hlarge
    · have hle : (2 : ℤ) ^ w ≤ 2 * next w n := by
        refine Int.le_of_dvd ?_ hdvd
        have hpos : (0 : ℤ) < 2 ^ m := by positivity
        omega
      have hmono : (2 : ℤ) ^ (m + 1) ≤ 2 ^ (w - 1) := pow_le_pow_right₀ one_le_two (by omega)
      omega
    · have hmul : (2 : ℤ) ^ w ∣ 2 ^ (m + 1) := pow_dvd_pow 2 (by omega)
      have hle := Int.le_of_dvd (by omega) (Int.dvd_sub hdvd hmul)
      have hpos : (0 : ℤ) < 2 ^ (w - 1) := by positivity
      omega

theorem next_of_le_one (hw : 2 ≤ w) (hn : 0 ≤ n) (h : n ≤ 1) : next w n = 0 := by
  obtain rfl | rfl : n = 0 ∨ n = 1 := by omega
  · rw [next, digit_of_even rfl]
    rfl
  · have hwindow : 3 ≤ 2 ^ w := (show 3 ≤ 2 ^ 2 by decide).trans (Nat.pow_le_pow_right Nat.two_pos hw)
    rw [next, digit_of_odd rfl, Int.one_bmod hwindow]
    rfl

/-! ### All digits -/

@[simp] theorem rest_zero : rest w n 0 = n := rfl

theorem rest_succ (i : ℕ) : rest w n (i + 1) = next w (rest w n i) := rfl

/-- The digits and what is left make up the number. -/
theorem sum_digits (hw : 1 ≤ w) (n : ℤ) (k : ℕ) :
    ∑ i ∈ Finset.range k, digits w n i * 2 ^ i + 2 ^ k * rest w n k = n := by
  induction k with
  | zero => rw [Finset.sum_range_zero, rest_zero, pow_zero, one_mul, zero_add]
  | succ k ih =>
      have hnext := two_mul_next hw (rest w n k)
      rw [← digits, ← rest_succ] at hnext
      calc ∑ i ∈ Finset.range (k + 1), digits w n i * 2 ^ i + 2 ^ (k + 1) * rest w n (k + 1)
          = ∑ i ∈ Finset.range k, digits w n i * 2 ^ i +
              2 ^ k * (2 * rest w n (k + 1) + digits w n k) := by
            rw [Finset.sum_range_succ]
            ring
        _ = n := by rw [hnext, ih]

theorem rest_nonneg (hw : 1 ≤ w) (hn : 0 ≤ n) (i : ℕ) : 0 ≤ rest w n i := by
  induction i with
  | zero => exact hn
  | succ i ih => exact next_nonneg hw ih

theorem rest_le (hw : 2 ≤ w) (h : n ≤ 2 ^ m) {i : ℕ} (hi : i ≤ m) :
    rest w n i ≤ 2 ^ (m - i) := by
  induction i with
  | zero => exact h
  | succ i ih =>
      refine next_le hw ?_
      rw [show m - (i + 1) + 1 = m - i by omega]
      exact ih (by omega)

/-- A number below `2 ^ m` has at most `m + 1` digits. -/
theorem rest_eq_zero (hw : 2 ≤ w) (hn : 0 ≤ n) (h : n ≤ 2 ^ m) : rest w n (m + 1) = 0 := by
  refine next_of_le_one hw (rest_nonneg (by omega) hn m) ?_
  have hlast := rest_le hw h le_rfl
  rwa [Nat.sub_self, pow_zero] at hlast

/-- They sum up to it. -/
theorem sum_all_digits (hw : 2 ≤ w) (hn : 0 ≤ n) (h : n ≤ 2 ^ m) :
    ∑ i ∈ Finset.range (m + 1), digits w n i * 2 ^ i = n := by
  have hsum := sum_digits (w := w) (by omega) n (m + 1)
  rwa [rest_eq_zero hw hn h, mul_zero, add_zero] at hsum

/-! ### Zeros -/

/-- A multiple of a power of two has zeros for digits. -/
theorem rest_of_dvd {k j : ℕ} (h : (2 : ℤ) ^ k ∣ n) (hj : j ≤ k) : (2 : ℤ) ^ (k - j) ∣ rest w n j := by
  induction j with
  | zero => exact h
  | succ j ih =>
      have hdvd := ih (by omega)
      rw [show k - j = k - (j + 1) + 1 by omega, pow_succ] at hdvd
      have heven : rest w n j % 2 = 0 := Int.emod_eq_zero_of_dvd ((dvd_mul_left 2 _).trans hdvd)
      rw [rest_succ, next, digit_of_even heven, sub_zero]
      exact Int.dvd_ediv_of_mul_dvd (by rwa [mul_comm] at hdvd)

theorem digits_of_dvd {k j : ℕ} (h : (2 : ℤ) ^ k ∣ n) (hj : j < k) : digits w n j = 0 := by
  refine digit_of_even (Int.emod_eq_zero_of_dvd ?_)
  exact (dvd_pow_self 2 (by omega)).trans (rest_of_dvd h hj.le)

theorem rest_add (i j : ℕ) : rest w n (i + j) = rest w (rest w n i) j := by
  induction j with
  | zero => rfl
  | succ j ih => rw [← Nat.add_assoc, rest_succ, ih, rest_succ]

/-- After a nonzero digit `w - 1` digits are zero. -/
theorem digits_eq_zero (hw : 1 ≤ w) {i j : ℕ} (h : digits w n i ≠ 0) (hlt : i < j)
    (hj : j < i + w) : digits w n j = 0 := by
  obtain ⟨k, rfl⟩ := Nat.exists_eq_add_of_lt hlt
  have hodd : rest w n i % 2 = 1 := by
    rcases Int.emod_two_eq_zero_or_one (rest w n i) with heven | hodd
    · exact absurd (digit_of_even heven) h
    · exact hodd
  have hdvd : (2 : ℤ) ^ (w - 1) ∣ rest w n (i + 1) := by
    have hdvd := dvd_sub_digit (w := w) hodd
    rw [two_pow_eq hw] at hdvd
    exact Int.dvd_ediv_of_mul_dvd hdvd
  have hzero : digits w (rest w n (i + 1)) k = 0 := digits_of_dvd hdvd (by omega)
  rw [digits, ← rest_add] at hzero
  rwa [digits, show i + k + 1 = i + 1 + k by omega]

end Wnaf
