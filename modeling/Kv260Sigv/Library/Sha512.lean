import Mathlib.Data.BitVec
import Mathlib.Data.List.GetD
import Mathlib.Tactic.Common

/-!
# SHA-512

The hash of FIPS 180-4 on messages of whole bytes: the functions of section 4.1.3, the
padding of 5.1.2, the parsing of 5.2.2 and the computation of 6.4.  A block is the number
its 128 bytes spell, first byte highest, and its words are slices of that number.

`absorb` is the computation block by block, so that an implementation can be compared
with it while it still holds part of a block.
-/

set_option autoImplicit false

namespace Sha512

/-! ### Functions and constants -/

/-- `Ch`, `Maj`, `Σ₀`, `Σ₁`, `σ₀`, `σ₁`. -/
def ch (x y z : BitVec 64) : BitVec 64 := (x &&& y) ^^^ (~~~x &&& z)
@[inherit_doc ch]
def maj (x y z : BitVec 64) : BitVec 64 := (x &&& y) ^^^ (x &&& z) ^^^ (y &&& z)
@[inherit_doc ch]
def bigSigma0 (x : BitVec 64) : BitVec 64 :=
  x.rotateRight 28 ^^^ x.rotateRight 34 ^^^ x.rotateRight 39
@[inherit_doc ch]
def bigSigma1 (x : BitVec 64) : BitVec 64 :=
  x.rotateRight 14 ^^^ x.rotateRight 18 ^^^ x.rotateRight 41
@[inherit_doc ch]
def smallSigma0 (x : BitVec 64) : BitVec 64 :=
  x.rotateRight 1 ^^^ x.rotateRight 8 ^^^ (x >>> 7)
@[inherit_doc ch]
def smallSigma1 (x : BitVec 64) : BitVec 64 :=
  x.rotateRight 19 ^^^ x.rotateRight 61 ^^^ (x >>> 6)

/-- The constants `K`. -/
def constants : List (BitVec 64) := [
  0x428a2f98d728ae22, 0x7137449123ef65cd, 0xb5c0fbcfec4d3b2f, 0xe9b5dba58189dbbc,
  0x3956c25bf348b538, 0x59f111f1b605d019, 0x923f82a4af194f9b, 0xab1c5ed5da6d8118,
  0xd807aa98a3030242, 0x12835b0145706fbe, 0x243185be4ee4b28c, 0x550c7dc3d5ffb4e2,
  0x72be5d74f27b896f, 0x80deb1fe3b1696b1, 0x9bdc06a725c71235, 0xc19bf174cf692694,
  0xe49b69c19ef14ad2, 0xefbe4786384f25e3, 0x0fc19dc68b8cd5b5, 0x240ca1cc77ac9c65,
  0x2de92c6f592b0275, 0x4a7484aa6ea6e483, 0x5cb0a9dcbd41fbd4, 0x76f988da831153b5,
  0x983e5152ee66dfab, 0xa831c66d2db43210, 0xb00327c898fb213f, 0xbf597fc7beef0ee4,
  0xc6e00bf33da88fc2, 0xd5a79147930aa725, 0x06ca6351e003826f, 0x142929670a0e6e70,
  0x27b70a8546d22ffc, 0x2e1b21385c26c926, 0x4d2c6dfc5ac42aed, 0x53380d139d95b3df,
  0x650a73548baf63de, 0x766a0abb3c77b2a8, 0x81c2c92e47edaee6, 0x92722c851482353b,
  0xa2bfe8a14cf10364, 0xa81a664bbc423001, 0xc24b8b70d0f89791, 0xc76c51a30654be30,
  0xd192e819d6ef5218, 0xd69906245565a910, 0xf40e35855771202a, 0x106aa07032bbd1b8,
  0x19a4c116b8d2d0c8, 0x1e376c085141ab53, 0x2748774cdf8eeb99, 0x34b0bcb5e19b48a8,
  0x391c0cb3c5c95a63, 0x4ed8aa4ae3418acb, 0x5b9cca4f7763e373, 0x682e6ff3d6b2b8a3,
  0x748f82ee5defb2fc, 0x78a5636f43172f60, 0x84c87814a1f0ab72, 0x8cc702081a6439ec,
  0x90befffa23631e28, 0xa4506cebde82bde9, 0xbef9a3f7b2c67915, 0xc67178f2e372532b,
  0xca273eceea26619c, 0xd186b8c721c0c207, 0xeada7dd6cde0eb1e, 0xf57d4f7fee6ed178,
  0x06f067aa72176fba, 0x0a637dc5a2c898a6, 0x113f9804bef90dae, 0x1b710b35131c471b,
  0x28db77f523047d84, 0x32caab7b40c72493, 0x3c9ebe0a15c9bebc, 0x431d67c49c100d4c,
  0x4cc5d4becb3e42b6, 0x597f299cfc657e2a, 0x5fcb6fab3ad6faec, 0x6c44198c4a475817]

/-- The first eighty primes. -/
def primes : List ℕ := [
  2, 3, 5, 7, 11, 13, 17, 19, 23, 29, 31, 37, 41, 43, 47, 53, 59, 61, 67, 71, 73, 79, 83, 89, 97,
  101, 103, 107, 109, 113, 127, 131, 137, 139, 149, 151, 157, 163, 167, 173, 179, 181, 191, 193,
  197, 199, 211, 223, 227, 229, 233, 239, 241, 251, 257, 263, 269, 271, 277, 281, 283, 293, 307,
  311, 313, 317, 331, 337, 347, 349, 353, 359, 367, 373, 379, 383, 389, 397, 401, 409]

/-- The working variables, and the chaining value. -/
structure Words where
  a : BitVec 64
  b : BitVec 64
  c : BitVec 64
  d : BitVec 64
  e : BitVec 64
  f : BitVec 64
  g : BitVec 64
  h : BitVec 64
  deriving DecidableEq, Repr

/-- The initial value `H⁽⁰⁾`. -/
def initial : Words :=
  ⟨0x6a09e667f3bcc908, 0xbb67ae8584caa73b, 0x3c6ef372fe94f82b, 0xa54ff53a5f1d36f1,
    0x510e527fade682d1, 0x9b05688c2b3e6c1f, 0x1f83d9abfb41bd6b, 0x5be0cd19137e2179⟩

/-- The first 64 bits of the fractional part of the `n`-th root of `p`. -/
def IsRootFraction (n p : ℕ) (x : BitVec 64) : Prop :=
  ∃ q < 32, let r := q * 2 ^ 64 + x.toNat
    r ^ n ≤ p * 2 ^ (64 * n) ∧ p * 2 ^ (64 * n) < (r + 1) ^ n

instance (n p : ℕ) (x : BitVec 64) : Decidable (IsRootFraction n p x) :=
  inferInstanceAs (Decidable (∃ q < 32, _))

-- the standard defines both tables by roots of primes
example : constants.length = 80 ∧
    (∀ x ∈ primes.zip constants, IsRootFraction 3 x.1 x.2) ∧
    ∀ x ∈ primes.zip [initial.a, initial.b, initial.c, initial.d, initial.e, initial.f,
      initial.g, initial.h], IsRootFraction 2 x.1 x.2 := by decide +kernel

/-! ### One block -/

/-- The number that bytes spell, first byte highest. -/
def value (bytes : List (BitVec 8)) : ℕ := bytes.foldl (fun v byte => v * 256 + byte.toNat) 0

/-- The words of a block. -/
def blockWord (block : BitVec 1024) (t : ℕ) : BitVec 64 := block.extractLsb' (960 - t * 64) 64

/-- The message schedule `W`. -/
def schedule (block : BitVec 1024) (t : ℕ) : BitVec 64 :=
  if t < 16 then blockWord block t
  else
    smallSigma1 (schedule block (t - 2)) + schedule block (t - 7) +
      smallSigma0 (schedule block (t - 15)) + schedule block (t - 16)
termination_by t

/-- One round, with its constant and its word of the schedule. -/
def round (k w : BitVec 64) (s : Words) : Words :=
  let t₁ := s.h + bigSigma1 s.e + ch s.e s.f s.g + k + w
  let t₂ := bigSigma0 s.a + maj s.a s.b s.c
  ⟨t₁ + t₂, s.a, s.b, s.c, s.d + t₁, s.e, s.f, s.g⟩

/-- The working variables after `t` rounds. -/
def rounds (block : BitVec 1024) (s : Words) : ℕ → Words
  | 0 => s
  | t + 1 => round (constants.getD t 0) (schedule block t) (rounds block s t)

/-- The sum of chaining value and working variables. -/
def add (x y : Words) : Words :=
  ⟨x.a + y.a, x.b + y.b, x.c + y.c, x.d + y.d, x.e + y.e, x.f + y.f, x.g + y.g, x.h + y.h⟩

/-- The chaining value after a block. -/
def compress (s : Words) (block : BitVec 1024) : Words := add s (rounds block s 80)

theorem schedule_of_lt {block : BitVec 1024} {t : ℕ} (h : t < 16) :
    schedule block t = blockWord block t := by
  rw [schedule, if_pos h]

theorem schedule_of_ge (block : BitVec 1024) (t : ℕ) :
    schedule block (t + 16) = smallSigma1 (schedule block (t + 14)) + schedule block (t + 9) +
      smallSigma0 (schedule block (t + 1)) + schedule block t := by
  rw [schedule, if_neg (by omega)]
  rfl

/-! ### Messages -/

/-- The zero bytes of the padding. -/
def zeroBytes (length : ℕ) : ℕ := (239 - length % 128) % 128

/-- A number as sixteen bytes, the highest first. -/
def lengthBytes (n : ℕ) : List (BitVec 8) :=
  (List.range 16).map fun k => BitVec.ofNat 8 (n / 256 ^ (15 - k))

/-- The padded message. -/
def pad (message : List (BitVec 8)) : List (BitVec 8) :=
  message ++ (0x80 :: (List.replicate (zeroBytes message.length) 0 ++
    lengthBytes (8 * message.length)))

/-- The chaining value after the first `n` blocks of `bytes`. -/
def absorb : ℕ → Words → List (BitVec 8) → Words
  | 0, s, _ => s
  | n + 1, s, bytes =>
      absorb n (compress s (BitVec.ofNat 1024 (value (bytes.take 128)))) (bytes.drop 128)

/-- The eight words, the first highest. -/
def Words.toBits (s : Words) : BitVec 512 :=
  s.a ++ (s.b ++ (s.c ++ (s.d ++ (s.e ++ (s.f ++ (s.g ++ s.h))))))

/-- SHA-512. -/
def hash (message : List (BitVec 8)) : BitVec 512 :=
  (absorb ((pad message).length / 128) initial (pad message)).toBits

/-- The padding is the shortest that leaves room for the length in the last block. -/
theorem zeroBytes_least (length : ℕ) :
    (length + 1 + zeroBytes length) % 128 = 112 ∧
      ∀ k, (length + 1 + k) % 128 = 112 → zeroBytes length ≤ k := by
  unfold zeroBytes
  constructor
  · omega
  · intro k hk
    omega

theorem length_pad (message : List (BitVec 8)) :
    (pad message).length = message.length + 17 + zeroBytes message.length := by
  simp only [pad, lengthBytes, List.length_append, List.length_cons, List.length_replicate,
    List.length_map, List.length_range]
  omega

/-- A padded message is made of whole blocks. -/
theorem length_pad_mod (message : List (BitVec 8)) : (pad message).length % 128 = 0 := by
  have hleast := (zeroBytes_least message.length).1
  rw [length_pad]
  omega

/-- One more byte at the low end. -/
theorem value_append_singleton (bytes : List (BitVec 8)) (byte : BitVec 8) :
    value (bytes ++ [byte]) = value bytes * 256 + byte.toNat := by
  rw [value, List.foldl_append]
  rfl

theorem value_lt (bytes : List (BitVec 8)) : value bytes < 256 ^ bytes.length := by
  induction bytes using List.reverseRecOn with
  | nil => exact Nat.one_pos
  | append_singleton bytes byte ih =>
      have hbyte := byte.isLt
      rw [value_append_singleton, List.length_append, List.length_singleton, pow_succ]
      omega

/-- A block that is complete is compressed, and the rest is absorbed after it. -/
theorem absorb_block {s : Words} {block rest : List (BitVec 8)} {n : ℕ}
    (h : block.length = 128) :
    absorb (n + 1) s (block ++ rest) =
      absorb n (compress s (BitVec.ofNat 1024 (value block))) rest := by
  rw [absorb, ← h, List.take_left, List.drop_left]

end Sha512
