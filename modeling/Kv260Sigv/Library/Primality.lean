import Mathlib.Data.List.Prime
import Mathlib.NumberTheory.LucasPrimality

/-!
# Primes of hundreds of bits

A number `p` is prime when some `a` has order `p - 1` modulo `p` (Lucas), and the order
is known from the prime factors of `p - 1`.  `powMod` computes the powers in a number of
steps that is logarithmic in the exponent, so that the tests of `prime_of_factors`
are a small evaluation for primes that trial division does not reach.
-/

set_option autoImplicit false

namespace Primality

/-- `a ^ n` modulo `m` for an exponent of `k` bits, its leading bit first. -/
def powMod (m a : ℕ) : ℕ → ℕ → ℕ
  | 0, _ => 1 % m
  | k + 1, n =>
      let half := powMod m a k (n / 2)
      let square := half * half % m
      if n % 2 = 0 then square else square * a % m

theorem powMod_eq (m a : ℕ) {k n : ℕ} (h : n < 2 ^ k) : powMod m a k n = a ^ n % m := by
  induction k generalizing n with
  | zero =>
      rw [Nat.lt_one_iff.mp h]
      rfl
  | succ k ih =>
      have hhalf : n / 2 < 2 ^ k := by
        rw [pow_succ] at h
        omega
      have hsquare : powMod m a k (n / 2) * powMod m a k (n / 2) % m = a ^ (n / 2 * 2) % m := by
        rw [ih hhalf, ← Nat.mul_mod, ← pow_add, ← Nat.mul_two]
      simp only [powMod]
      rw [hsquare]
      -- the bit that the halving dropped
      split
      · next heven => rw [Nat.div_mul_cancel (Nat.dvd_of_mod_eq_zero heven)]
      · next hodd =>
          rw [Nat.mod_mul_mod, ← pow_succ, show n / 2 * 2 + 1 = n by omega]

/-- The power in the ring of residues. -/
theorem cast_powMod (m a : ℕ) {k n : ℕ} (h : n < 2 ^ k) :
    ((powMod m a k n : ℕ) : ZMod m) = (a : ZMod m) ^ n := by
  rw [powMod_eq m a h, ZMod.natCast_mod, Nat.cast_pow]

theorem pow_eq_one_iff {m a k n : ℕ} (hm : 1 < m) (h : n < 2 ^ k) :
    (a : ZMod m) ^ n = 1 ↔ powMod m a k n = 1 := by
  have hlt : powMod m a k n < m := by
    rw [powMod_eq m a h]
    exact Nat.mod_lt _ (Nat.lt_trans Nat.zero_lt_one hm)
  rw [← cast_powMod m a h, ← Nat.cast_one, ZMod.natCast_eq_natCast_iff',
    Nat.mod_eq_of_lt hlt, Nat.mod_eq_of_lt hm]

/-- `p` is prime once the prime factors of `p - 1` are known and `a` has order `p - 1`. -/
theorem prime_of_factors {p a k : ℕ} {factors : List ℕ} (hprime : ∀ q ∈ factors, q.Prime)
    (hprod : factors.prod + 1 = p) (hk : p ≤ 2 ^ k) (hone : powMod p a k (p - 1) = 1)
    (hne : ∀ q ∈ factors, powMod p a k ((p - 1) / q) ≠ 1) : p.Prime := by
  have hpos : 0 < factors.prod := List.prod_pos fun q hq => (hprime q hq).pos
  have hp : 1 < p := by omega
  have hsmall : ∀ q, (p - 1) / q < 2 ^ k := by
    intro q
    exact Nat.lt_of_le_of_lt (Nat.div_le_self _ _) (by omega)
  refine lucas_primality p (a : ZMod p) ?_ ?_
  · exact (pow_eq_one_iff hp (by omega)).mpr hone
  · intro q hq hdvd
    rw [show p - 1 = factors.prod by omega] at hdvd
    obtain ⟨r, hr, hqr⟩ := (Prime.dvd_prod_iff hq.prime).mp hdvd
    rw [(Nat.prime_dvd_prime_iff_eq hq (hprime r hr)).mp hqr, Ne, pow_eq_one_iff hp (hsmall r)]
    exact hne r hr

end Primality
