import Mathlib.Data.Nat.Digits.Lemmas

/-!
# Numbers with leading zeros

A list of digits, the highest first, is a number and a count of leading zeros.
`convert` goes from one radix to another and keeps both.
-/

set_option autoImplicit false

namespace Radix

variable {a b : ℕ} {l : List ℕ}

/-- The number that digits write. -/
def value (b : ℕ) (l : List ℕ) : ℕ := l.foldl (fun n d => n * b + d) 0

/-- The leading zeros. -/
def zeros (l : List ℕ) : ℕ := (l.takeWhile (· = 0)).length

/-- The same number with the same leading zeros in another radix. -/
def convert (a b : ℕ) (l : List ℕ) : List ℕ :=
  List.replicate (zeros l) 0 ++ (Nat.digits b (value a l)).reverse

theorem value_eq (b : ℕ) (l : List ℕ) : value b l = Nat.ofDigits b l.reverse := by
  rw [value, Nat.ofDigits_eq_foldr, List.foldl_eq_foldr_reverse]
  congr 1
  funext d n
  rw [Nat.mul_comm, Nat.add_comm]
  rfl

theorem value_append (b : ℕ) (l l' : List ℕ) :
    value b (l ++ l') = value b l * b ^ l'.length + value b l' := by
  rw [value_eq, value_eq, value_eq, List.reverse_append, Nat.ofDigits_append, List.length_reverse]
  ring

theorem value_replicate (b z : ℕ) : value b (List.replicate z 0) = 0 := by
  induction z with
  | zero => rfl
  | succ z ih =>
      have hzero : value b [0] = 0 := Nat.zero_mul b
      rw [List.replicate_succ, ← List.singleton_append, value_append, hzero, ih, Nat.zero_mul]

theorem value_digits (b n : ℕ) : value b (Nat.digits b n).reverse = n := by
  rw [value_eq, List.reverse_reverse, Nat.ofDigits_digits]

theorem value_convert : value b (convert a b l) = value a l := by
  rw [convert, value_append, value_replicate, Nat.zero_mul, Nat.zero_add, value_digits]

/-- The first digit of a number is not zero. -/
theorem head_digits_ne_zero (b n : ℕ) :
    ∀ d ∈ (Nat.digits b n).reverse.head?, d ≠ 0 := by
  intro d hd
  rw [List.head?_reverse] at hd
  have hn : n ≠ 0 := by
    rintro rfl
    rw [Nat.digits_zero] at hd
    cases hd
  have hne : Nat.digits b n ≠ [] := Nat.digits_ne_nil_iff_ne_zero.mpr hn
  rw [List.getLast?_eq_some_getLast hne, Option.mem_some_iff] at hd
  rw [← hd]
  exact Nat.getLast_digit_ne_zero b hn

/-- Digits are the leading zeros and the digits of their number. -/
theorem convert_self (ha : 1 < a) (h : ∀ d ∈ l, d < a) : convert a a l = l := by
  induction l with
  | nil => rw [convert, value, List.foldl_nil, Nat.digits_zero]; rfl
  | cons d l ih =>
      by_cases hd : d = 0
      · subst hd
        have hzeros : zeros (0 :: l) = zeros l + 1 := by
          rw [zeros, List.takeWhile_cons_of_pos (by simp), List.length_cons, ← zeros]
        have hvalue : value a (0 :: l) = value a l := by
          rw [value, List.foldl_cons, Nat.zero_mul, ← value]
        have hconvert := ih fun x hx => h x (List.mem_cons_of_mem 0 hx)
        rw [convert] at hconvert
        rw [convert, hzeros, hvalue, List.replicate_succ, List.cons_append, hconvert]
      · have hzeros : zeros (d :: l) = 0 := by
          rw [zeros, List.takeWhile_cons_of_neg (by simpa)]
          rfl
        have hdigits : Nat.digits a (value a (d :: l)) = (d :: l).reverse := by
          rw [value_eq]
          refine Nat.digits_ofDigits a ha _ (fun x hx => h x (List.mem_reverse.mp hx)) ?_
          intro hne
          rwa [List.getLast_reverse, List.head_cons]
        rw [convert, hzeros, hdigits, List.reverse_reverse]
        rfl

theorem convert_lt (hb : 1 < b) : ∀ d ∈ convert a b l, d < b := by
  intro d hd
  rcases List.mem_append.mp hd with hzero | hdigit
  · rw [List.eq_of_mem_replicate hzero]
    exact Nat.zero_lt_of_lt hb
  · exact Nat.digits_lt_base hb (List.mem_reverse.mp hdigit)

end Radix
