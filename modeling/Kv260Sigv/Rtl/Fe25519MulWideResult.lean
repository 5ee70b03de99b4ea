import Kv260Sigv.Rtl.Fe25519MulWideCore
import Kv260Sigv.Library.Limbs
import Mathlib.Algebra.BigOperators.Fin
import Mathlib.Tactic.FinCases
import Mathlib.Tactic.IntervalCases

/-!
# What the 5x51-limb multiplier computes

The schedule is fixed: nine diagonals, a flush, the fold by 19, two carry passes
of five steps, pack, reduce, finish.  Along it the carry registers hold a number
`V` with `V ≡ a * b`; one pass maps `V` to `V - p * (V / 2 ^ 255)`.  After the
second pass limb 0 may hold up to 19 more than its 51 bits, and `pack` cuts that
off.  `settle` is the resulting number, and `settle_eq_iff` says when it is the
product modulo `p`.
-/

namespace Kv260Sigv

namespace Fe25519MulWideCore

open Clocked Limbs

/-! ### Diagonals -/

/-- What lane `i` contributes to diagonal `d`. -/
def lane (a b : ℕ) (d i : ℕ) : ℕ :=
  if i ≤ d ∧ d ≤ i + 4 then limb 51 a i * limb 51 b (d - i) else 0

/-- Diagonal `d` of the limb product. -/
def diag (a b d : ℕ) : ℕ := lane a b d 0 + lane a b d 1 + lane a b d 2 + lane a b d 3 + lane a b d 4

/-- The diagonals above `2 ^ 255`, as a number. -/
def highPart (a b : ℕ) : ℕ := value 51 4 fun d => diag a b (d + 5)

/-- The diagonals after the fold. -/
def folded (a b : ℕ) : ℕ := value 51 5 fun d => diag a b d + if d < 4 then 19 * diag a b (d + 5) else 0

theorem lane_le (a b d i : ℕ) : lane a b d i ≤ (2 ^ 51 - 1) * (2 ^ 51 - 1) := by
  unfold lane
  split
  · have ha := limb_lt 51 a i
    have hb := limb_lt 51 b (d - i)
    exact Nat.mul_le_mul (by omega) (by omega)
  · exact Nat.zero_le _

theorem diag_le (a b d : ℕ) : diag a b d ≤ 5 * ((2 ^ 51 - 1) * (2 ^ 51 - 1)) := by
  have h0 := lane_le a b d 0
  have h1 := lane_le a b d 1
  have h2 := lane_le a b d 2
  have h3 := lane_le a b d 3
  have h4 := lane_le a b d 4
  unfold diag
  omega

/-- The nine diagonals are the product. -/
theorem value_diag {a b : ℕ} (ha : a < 2 ^ 255) (hb : b < 2 ^ 255) :
    value 51 9 (diag a b) = a * b := by
  have ha' : value 51 5 (limb 51 a) = a := value_limb_of_lt ha
  have hb' : value 51 5 (limb 51 b) = b := value_limb_of_lt hb
  conv_rhs => rw [← ha', ← hb']
  simp only [value_succ, value_zero, diag, lane, pow_mul]
  -- a polynomial identity in the base
  generalize 2 ^ 51 = base
  simp only [Nat.reduceLeDiff, Nat.reduceAdd, Nat.reduceSub, and_true, if_true, if_false,
    and_self, and_false, Nat.zero_add]
  ring

/-- The fold replaces `2 ^ 255` by 19 in the high part. -/
theorem folded_add {a b : ℕ} (ha : a < 2 ^ 255) (hb : b < 2 ^ 255) :
    folded a b + fieldP * highPart a b = a * b := by
  have hp : fieldP + 19 = (2 ^ 51) ^ 5 := by decide +kernel
  have hsplit : folded a b = value 51 5 (diag a b) + 19 * highPart a b := by
    simp only [folded, highPart, value_succ, value_zero, Nat.reduceLT, if_true, if_false]
    ring
  have hvalue : value 51 9 (diag a b) = value 51 5 (diag a b) + (fieldP + 19) * highPart a b := by
    rw [hp]
    simp only [highPart, value_succ, value_zero, pow_mul]
    generalize 2 ^ 51 = base
    ring
  rw [← value_diag ha hb, hsplit, hvalue]
  ring

/-! ### Two carry passes and the final subtraction -/

/-- The value after one carry pass. -/
def carried (v : ℕ) : ℕ := v % 2 ^ 255 + 19 * (v / 2 ^ 255)

/-- What `pack` keeps after the second pass: limb 0 loses everything above its
51 bits. -/
def packed (v : ℕ) : ℕ :=
  v % 2 ^ 255 - v % 2 ^ 255 % 2 ^ 51 + (v % 2 ^ 255 % 2 ^ 51 + 19 * (v / 2 ^ 255)) % 2 ^ 51

/-- The result register, from the folded product. -/
def settle (v : ℕ) : ℕ :=
  if fieldP ≤ packed (carried v) then packed (carried v) - fieldP else packed (carried v)

/-- The operands on which the second wrap-around spills out of limb 0: the
residue has a low limb below 19, is not below `2 ^ 51`, and is less than 19 times
the quotient of the folded product. -/
def Spills (a b : ℕ) : Prop :=
  2 ^ 51 ≤ a * b % fieldP ∧ a * b % fieldP % 2 ^ 51 < 19 ∧
    a * b % fieldP + 19 * highPart a b < 19 * (a * b / fieldP)

instance (a b : ℕ) : Decidable (Spills a b) := by
  unfold Spills
  infer_instance

theorem fieldP_eq :
    fieldP = 57896044618658097711785492504343953926634992332820282019728792003956564819949 := by
  decide +kernel

theorem two_pow_255 : 2 ^ 255 = fieldP + 19 := by decide +kernel

/-- The first pass settles the product when its quotient is small against the
residue. -/
theorem carried_of_ge {q r : ℕ} (hr : r < fieldP) (h : 19 * q ≤ r) :
    carried (fieldP * q + r) = r := by
  have hsplit : fieldP * q + r = (r - 19 * q) + 2 ^ 255 * q := by
    rw [two_pow_255, Nat.add_mul]
    omega
  have hlt : r - 19 * q < 2 ^ 255 := by
    rw [two_pow_255]
    omega
  rw [carried, hsplit, Nat.add_mul_mod_self_left, Nat.mod_eq_of_lt hlt,
    Nat.add_mul_div_left _ _ (Nat.two_pow_pos 255), Nat.div_eq_of_lt hlt]
  omega

/-- Otherwise one more `p` is left for the second pass. -/
theorem carried_of_lt {q r : ℕ} (h : r < 19 * q) (hq : q < 2 ^ 64) :
    carried (fieldP * q + r) = fieldP + r := by
  obtain ⟨k, rfl⟩ : ∃ k, q = k + 1 := ⟨q - 1, by omega⟩
  have hp := fieldP_eq
  have hsplit : fieldP * (k + 1) + r = (fieldP + r - 19 * k) + 2 ^ 255 * k := by
    rw [two_pow_255, Nat.mul_succ, Nat.add_mul]
    omega
  have hlt : fieldP + r - 19 * k < 2 ^ 255 := by
    rw [two_pow_255]
    omega
  rw [carried, hsplit, Nat.add_mul_mod_self_left, Nat.mod_eq_of_lt hlt,
    Nat.add_mul_div_left _ _ (Nat.two_pow_pos 255), Nat.div_eq_of_lt hlt]
  omega

theorem packed_of_lt {v : ℕ} (h : v < 2 ^ 255) : packed v = v := by
  have hle := Nat.mod_le v (2 ^ 51)
  rw [packed, Nat.mod_eq_of_lt h, Nat.div_eq_of_lt h, Nat.mul_zero, Nat.add_zero, Nat.mod_mod]
  omega

/-- The second pass wraps: 19 goes into limb 0 and may spill. -/
theorem packed_wrap {r : ℕ} (h19 : 19 ≤ r) (hr : r < fieldP) :
    packed (fieldP + r) = if 2 ^ 51 ≤ r ∧ r % 2 ^ 51 < 19 then r - 2 ^ 51 else r := by
  have hsplit : fieldP + r = (r - 19) + 2 ^ 255 := by
    rw [two_pow_255]
    omega
  have hlt : r - 19 < 2 ^ 255 := by
    rw [two_pow_255]
    omega
  rw [packed, hsplit, Nat.add_mod_right, Nat.mod_eq_of_lt hlt,
    Nat.add_div_right _ (Nat.two_pow_pos 255), Nat.div_eq_of_lt hlt]
  split <;> omega

/-- With the folded product `p * q + r` the result is `r`, unless `r` spills. -/
theorem settle_eq_iff {q r : ℕ} (hr : r < fieldP) (hq : q < 2 ^ 64) :
    settle (fieldP * q + r) = r ↔ ¬ (2 ^ 51 ≤ r ∧ r % 2 ^ 51 < 19 ∧ r < 19 * q) := by
  have hp := fieldP_eq
  have h255 := two_pow_255
  unfold settle
  rcases Nat.lt_or_ge r (19 * q) with hlow | hhigh
  · rw [carried_of_lt hlow hq]
    rcases Nat.lt_or_ge r 19 with hsmall | hlarge
    · rw [packed_of_lt (by omega), if_pos (Nat.le_add_right _ _)]
      omega
    · rw [packed_wrap hlarge hr]
      by_cases hspill : 2 ^ 51 ≤ r ∧ r % 2 ^ 51 < 19
      · rw [if_pos hspill, if_neg (by omega)]
        omega
      · rw [if_neg hspill, if_neg (by omega)]
        omega
  · rw [carried_of_ge hr hhigh, packed_of_lt (by omega), if_neg (by omega)]
    omega

theorem folded_lt (a b : ℕ) : folded a b < fieldP * 2 ^ 64 := by
  have hp := fieldP_eq
  have h0 := diag_le a b 0
  have h1 := diag_le a b 1
  have h2 := diag_le a b 2
  have h3 := diag_le a b 3
  have h4 := diag_le a b 4
  have h5 := diag_le a b 5
  have h6 := diag_le a b 6
  have h7 := diag_le a b 7
  have h8 := diag_le a b 8
  simp only [folded, value_succ, value_zero, Nat.reduceLT, Nat.reduceAdd, if_true, if_false]
  omega

/-- The result register holds the product modulo `p` exactly when the operands
do not spill. -/
theorem settle_folded {a b : ℕ} (ha : a < 2 ^ 255) (hb : b < 2 ^ 255) :
    settle (folded a b) = a * b % fieldP ↔ ¬ Spills a b := by
  have hpos : 0 < fieldP := by rw [fieldP_eq]; decide
  have hadd := folded_add ha hb
  have hlt := folded_lt a b
  have hquot : folded a b / fieldP + highPart a b = a * b / fieldP := by
    rw [← hadd, Nat.add_mul_div_left _ _ hpos]
  have hmod : folded a b % fieldP = a * b % fieldP := by
    rw [← hadd, Nat.add_mul_mod_self_left]
  have hq : folded a b / fieldP < 2 ^ 64 := Nat.div_lt_of_lt_mul hlt
  have hsettle := settle_eq_iff (Nat.mod_lt (folded a b) hpos) hq
  rw [Nat.div_add_mod, hmod] at hsettle
  rw [hsettle, Spills]
  omega

theorem folded_comm (a b : ℕ) : folded a b = folded b a := by
  simp only [folded, diag, lane, value_succ, value_zero, Nat.reduceLT, Nat.reduceLeDiff,
    Nat.reduceAdd, Nat.reduceSub, if_true, if_false, and_true, and_self, and_false]
  ring

theorem folded_zero_left (b : ℕ) : folded 0 b = 0 := by
  have hlane : ∀ d i, lane 0 b d i = 0 := by
    intro d i
    simp [lane, limb]
  simp [folded, diag, hlane, value_succ, value_zero]

theorem settle_lt (v : ℕ) : settle v < fieldP := by
  have hp := fieldP_eq
  have hpacked : packed (carried v) < 2 ^ 255 := by
    rw [packed]
    omega
  rw [settle]
  split <;> omega

/-! ### The multiplication phase -/

/-- The operand limbs are loaded. -/
def Loaded (a b : BitVec 255) (s : State) : Prop :=
  (∀ i < 5, (s.aLimb.read i).toNat = limb 51 a.toNat i) ∧
    ∀ i < 5, (s.bLimb.read i).toNat = limb 51 b.toNat i

theorem laneValid_eq : ∀ i < 5, ∀ d < 9,
    laneValid i (BitVec.ofNat 4 d) = decide (i ≤ d ∧ d ≤ i + 4) := by
  decide

theorem laneJSafe_eq : ∀ i < 5, ∀ d < 9, i ≤ d → d ≤ i + 4 →
    (laneJSafe i (BitVec.ofNat 4 d)).toNat = d - i := by
  decide

theorem toNat_setWidth_of_le {v w : ℕ} (h : v ≤ w) (x : BitVec v) :
    (x.setWidth w).toNat = x.toNat := by
  rw [BitVec.toNat_setWidth, Nat.mod_eq_of_lt]
  exact lt_of_lt_of_le x.isLt (Nat.pow_le_pow_right (by decide) h)

/-- The lanes multiply the right limbs. -/
theorem product_toNat {a b : BitVec 255} {s : State} (hs : Loaded a b s) {d : ℕ} (hd : d < 9)
    (hindex : s.diagIndex.toNat = d) {i : ℕ} (hi : i < 5) :
    (product s i).toNat = lane a.toNat b.toNat d i := by
  have hdiag : s.diagIndex = BitVec.ofNat 4 d := by
    apply BitVec.eq_of_toNat_eq
    rw [hindex, BitVec.toNat_ofNat, Nat.mod_eq_of_lt (by omega)]
  rw [product, lane, hdiag, laneValid_eq i hi d hd]
  by_cases h : i ≤ d ∧ d ≤ i + 4
  · have hj := laneJSafe_eq i hi d hd h.1 h.2
    have ha := limb_lt 51 a.toNat i
    have hb := limb_lt 51 b.toNat (d - i)
    rw [if_pos (decide_eq_true h), if_pos h, BitVec.toNat_mul,
      toNat_setWidth_of_le (by decide), toNat_setWidth_of_le (by decide), hs.1 i hi, hj,
      hs.2 _ (by omega)]
    refine Nat.mod_eq_of_lt ?_
    calc limb 51 a.toNat i * limb 51 b.toNat (d - i)
        < 2 ^ 51 * 2 ^ 51 := Nat.mul_lt_mul'' ha hb
      _ = 2 ^ 102 := by rw [← pow_add]
  · rw [if_neg (by simpa using h), if_neg h]
    rfl

/-- Before cycle `k` of the multiplication: the lanes hold diagonal `k - 1` and
the diagonals below it are stored.  At `k = 9` only the flush is left. -/
structure Multiplying (a b : BitVec 255) (k : ℕ) (s : State) : Prop where
  state : s.state = if k < 9 then .mul else .mulFlush
  loaded : Loaded a b s
  diagIndex : s.diagIndex.toNat = min k 8
  productValid : s.productValid = decide (0 < k)
  productDiagIndex : 0 < k → s.productDiagIndex.toNat = k - 1
  productReg : 0 < k → ∀ i < 5, (s.productReg.read i).toNat = lane a.toNat b.toNat (k - 1) i
  coeff : ∀ d < 9, d + 1 < k → (s.coeff.read d).toNat = diag a.toNat b.toNat d
  notDone : s.done = false

/-- The adder tree does not overflow. -/
theorem diagSum_toNat {a b : BitVec 255} {k : ℕ} {s : State} (h : Multiplying a b k s)
    (hk : 0 < k) : (diagSumRegistered s).toNat = diag a.toNat b.toNat (k - 1) := by
  have hlane := fun i => lane_le a.toNat b.toNat (k - 1) i
  have h0 := hlane 0
  have h1 := hlane 1
  have h2 := hlane 2
  have h3 := hlane 3
  have h4 := hlane 4
  have hreg := h.productReg hk
  rw [diagSumRegistered, diag]
  simp only [BitVec.toNat_add, toNat_setWidth_of_le (show 102 ≤ 108 by decide),
    hreg 0 (by decide), hreg 1 (by decide), hreg 2 (by decide), hreg 3 (by decide),
    hreg 4 (by decide)]
  omega

/-- Storing the registered diagonal. -/
theorem storeDiag_toNat {a b : BitVec 255} {k : ℕ} {s : State} (h : Multiplying a b k s)
    {d : ℕ} (hd : d < 9) (hlt : d < k) :
    ((storeDiag s).read d).toNat = diag a.toNat b.toNat d := by
  have hk : 0 < k := by omega
  rw [storeDiag, if_pos (by rw [h.productValid]; exact decide_eq_true hk),
    h.productDiagIndex hk]
  by_cases hlast : d = k - 1
  · rw [← hlast, RegFile.read_write_self _ _ hd, diagSum_toNat h hk, hlast]
  · rw [RegFile.read_write_of_ne _ _ hlast]
    exact h.coeff d hd (by omega)

theorem Multiplying.next {a b : BitVec 255} {k : ℕ} (hk : k < 9) (i : MulInputs) (s : State)
    (h : Multiplying a b k s) : Multiplying a b (k + 1) (step i s) := by
  have hstate := h.state
  rw [if_pos hk] at hstate
  have hindex : s.diagIndex.toNat = k := by
    rw [h.diagIndex]
    omega
  have hlast : s.diagIndex = 8 ↔ k = 8 := by
    rw [← BitVec.toNat_inj, hindex]
    rfl
  simp only [step, hstate]
  refine ⟨?_, h.loaded, ?_, ?_, ?_, ?_, ?_, rfl⟩
  · show (if s.diagIndex = 8 then Phase.mulFlush else Phase.mul) = _
    by_cases h8 : k = 8
    · rw [if_pos (hlast.mpr h8), if_neg (by omega)]
    · rw [if_neg (hlast.not.mpr h8), if_pos (by omega)]
  · show (if s.diagIndex = 8 then s.diagIndex else s.diagIndex + 1).toNat = _
    by_cases h8 : k = 8
    · rw [if_pos (hlast.mpr h8), hindex]
      omega
    · rw [if_neg (hlast.not.mpr h8), BitVec.toNat_add, hindex,
        show (1 : BitVec 4).toNat = 1 from rfl]
      omega
  · simp
  · intro _
    exact hindex
  · intro _ i hi
    show ((RegFile.ofFn (product s) : RegFile 5 102).read i).toNat = _
    rw [RegFile.read_ofFn _ hi]
    exact product_toNat h.loaded hk hindex hi
  · intro d hd hlt
    exact storeDiag_toNat h hd (by omega)

/-- After the flush the nine diagonals are in place. -/
structure Folding (a b : BitVec 255) (s : State) : Prop where
  state : s.state = .fold
  coeff : ∀ d < 9, (s.coeff.read d).toNat = diag a.toNat b.toNat d
  notDone : s.done = false

theorem Multiplying.flush {a b : BitVec 255} (i : MulInputs) (s : State)
    (h : Multiplying a b 9 s) : Folding a b (step i s) := by
  have hstate : s.state = .mulFlush := h.state
  simp only [step, hstate]
  exact ⟨rfl, fun d hd => storeDiag_toNat h hd hd, rfl⟩

/-! ### The carry phase -/

theorem times19_toNat {w : ℕ} {x : BitVec w} (h : x.toNat * 19 < 2 ^ w) :
    (times19 x).toNat = 19 * x.toNat := by
  have h4 : x.toNat * 2 ^ 4 < 2 ^ w := by omega
  have h1 : x.toNat * 2 ^ 1 < 2 ^ w := by omega
  rw [times19, BitVec.toNat_add, BitVec.toNat_add, BitVec.toNat_shiftLeft,
    BitVec.toNat_shiftLeft, Nat.shiftLeft_eq, Nat.shiftLeft_eq, Nat.mod_eq_of_lt h4,
    Nat.mod_eq_of_lt h1, Nat.mod_eq_of_lt (a := x.toNat * 2 ^ 4 + x.toNat * 2 ^ 1) (by omega),
    Nat.mod_eq_of_lt (by omega)]
  omega

/-- The number the carry registers hold. -/
def redValue (s : State) : ℕ := value 51 5 fun i => (s.red.read i).toNat

/-- Before step `k` of carry pass `p`: the registers hold `v`, the limbs below
`k` are proper, and no limb is near the register width. -/
structure Carrying (v p k : ℕ) (s : State) : Prop where
  state : s.state = .carry
  carryPass : s.carryPass.toNat = p
  carryIndex : s.carryIndex.toNat = k
  holds : redValue s = v
  proper : ∀ i < k, (s.red.read i).toNat < 2 ^ 51
  bound : ∀ i < 5, (s.red.read i).toNat < 2 ^ 110
  ahead : ∀ i < 5, k < i → (s.red.read i).toNat < 2 ^ 109
  notDone : s.done = false

theorem and_limbMask (x : BitVec 120) : (x &&& limbMask).toNat = x.toNat % 2 ^ 51 := by
  rw [BitVec.toNat_and, show limbMask.toNat = 2 ^ 51 - 1 by decide +kernel,
    Nat.and_two_pow_sub_one_eq_mod]

theorem carryValue_toNat {v p k : ℕ} {s : State} (h : Carrying v p k s) :
    (carryValue s).toNat = (s.red.read k).toNat / 2 ^ 51 := by
  rw [carryValue, h.carryIndex, BitVec.toNat_ushiftRight, Nat.shiftRight_eq_div_pow]

theorem Carrying.value_eq {v p k : ℕ} {s : State} (h : Carrying v p k s) :
    (s.red.read 0).toNat + (s.red.read 1).toNat * 2 ^ 51 + (s.red.read 2).toNat * 2 ^ 102 +
      (s.red.read 3).toNat * 2 ^ 153 + (s.red.read 4).toNat * 2 ^ 204 = v := by
  rw [← h.holds]
  simp only [redValue, value_succ, value_zero, Nat.mul_zero, Nat.zero_add, Nat.reduceMul,
    pow_zero, Nat.mul_one]

/-- Below the top limb a carry moves to the next limb. -/
theorem Carrying.next {v p k : ℕ} (hk : k < 4) (i : MulInputs) (s : State)
    (h : Carrying v p k s) : Carrying v p (k + 1) (step i s) := by
  have hnext : (s.carryIndex + 1).toNat = k + 1 := by
    rw [BitVec.toNat_add, h.carryIndex, show (1 : BitVec 3).toNat = 1 from rfl]
    omega
  have hlast : s.carryIndex ≠ 4 := by
    intro h4
    have := h.carryIndex
    rw [h4, show (4 : BitVec 3).toNat = 4 from rfl] at this
    omega
  have hsum : (s.red.read (k + 1) + carryValue s).toNat =
      (s.red.read (k + 1)).toNat + (s.red.read k).toNat / 2 ^ 51 := by
    have hahead := h.ahead (k + 1) (by omega) (by omega)
    have hbound := h.bound k (by omega)
    rw [BitVec.toNat_add, carryValue_toNat h]
    omega
  simp only [step, h.state, carryStep, if_neg hlast, h.carryIndex, hnext]
  have hred : ∀ j < 5, ((((s.red.write k (s.red.read k &&& limbMask)).write (k + 1)
      (s.red.read (k + 1) + carryValue s)).read j)).toNat =
        if j = k + 1 then (s.red.read (k + 1)).toNat + (s.red.read k).toNat / 2 ^ 51
        else if j = k then (s.red.read k).toNat % 2 ^ 51 else (s.red.read j).toNat := by
    intro j hj
    by_cases hj1 : j = k + 1
    · subst hj1
      rw [RegFile.read_write_self _ _ hj, if_pos rfl, hsum]
    · rw [RegFile.read_write_of_ne _ _ hj1, if_neg hj1]
      by_cases hj0 : j = k
      · subst hj0
        rw [RegFile.read_write_self _ _ hj, if_pos rfl, and_limbMask]
      · rw [RegFile.read_write_of_ne _ _ hj0, if_neg hj0]
  have hbound := h.bound k (by omega)
  refine ⟨rfl, h.carryPass, hnext, ?_, ?_, ?_, ?_, rfl⟩
  · -- what limb `k` loses the next limb gains
    rw [← h.value_eq, redValue]
    rw [value_congr hred]
    simp only [value_succ, value_zero]
    interval_cases k <;> simp only [Nat.reduceEqDiff, if_true, if_false, Nat.reduceAdd] <;> omega
  · intro j hj
    rw [hred j (by omega)]
    have hproper := h.proper j
    split
    · omega
    · split <;> omega
  · intro j hj
    rw [hred j hj]
    have hj' := h.bound j hj
    have hahead := h.ahead (k + 1) (by omega) (by omega)
    split
    · omega
    · split <;> omega
  · intro j hj hlt
    rw [hred j hj, if_neg (by omega), if_neg (by omega)]
    exact h.ahead j hj (by omega)

/-- The registers after the wrap-around: limb 0 has the carry added, the others
are the digits of `v`. -/
structure Wrapped (v : ℕ) (s : State) : Prop where
  low : (s.red.read 0).toNat = v % 2 ^ 255 % 2 ^ 51 + 19 * (v / 2 ^ 255)
  limbs : ∀ i < 5, 0 < i → (s.red.read i).toNat = limb 51 (v % 2 ^ 255) i

/-- The top limb's carry returns to limb 0, multiplied by 19. -/
theorem Carrying.wrap {v p : ℕ} (hv : v < fieldP * 2 ^ 64) (i : MulInputs) (s : State)
    (h : Carrying v p 4 s) : Wrapped v (step i s) := by
  have hp := fieldP_eq
  have hlast : s.carryIndex = 4 := by
    apply BitVec.eq_of_toNat_eq
    rw [h.carryIndex]
    rfl
  have hvalue := h.value_eq
  have h0 := h.proper 0 (by omega)
  have h1 := h.proper 1 (by omega)
  have h2 := h.proper 2 (by omega)
  have h3 := h.proper 3 (by omega)
  have hcarry := carryValue_toNat h
  have hfold : (times19 (carryValue s)).toNat = 19 * ((s.red.read 4).toNat / 2 ^ 51) := by
    rw [times19_toNat, hcarry]
    rw [hcarry]
    omega
  have hlow : (s.red.read 0 + times19 (carryValue s)).toNat =
      (s.red.read 0).toNat + 19 * ((s.red.read 4).toNat / 2 ^ 51) := by
    rw [BitVec.toNat_add, hfold]
    omega
  -- the digits of `v` below `2 ^ 255`
  have hdigits : v % 2 ^ 255 = value 51 5 fun j =>
      if j = 4 then (s.red.read 4).toNat % 2 ^ 51 else (s.red.read j).toNat := by
    simp only [value_succ, value_zero, Nat.reduceEqDiff, if_true, if_false, Nat.reduceMul]
    omega
  have hproper : ∀ j < 5,
      (if j = 4 then (s.red.read 4).toNat % 2 ^ 51 else (s.red.read j).toNat) < 2 ^ 51 := by
    intro j hj
    split
    · exact Nat.mod_lt _ (Nat.two_pow_pos 51)
    · exact h.proper j (by omega)
  simp only [step, h.state, carryStep, if_pos hlast, h.carryIndex]
  refine ⟨?_, ?_⟩
  · show (((s.red.write 4 (s.red.read 4 &&& limbMask)).write 0
      (s.red.read 0 + times19 (carryValue s))).read 0).toNat = _
    rw [RegFile.read_write_self _ _ (by decide), hlow]
    omega
  · intro j hj hpos
    show (((s.red.write 4 (s.red.read 4 &&& limbMask)).write 0
      (s.red.read 0 + times19 (carryValue s))).read j).toNat = _
    rw [RegFile.read_write_of_ne _ _ (by omega), hdigits, limb_value hproper hj]
    by_cases h4 : j = 4
    · subst h4
      rw [RegFile.read_write_self _ _ hj, and_limbMask, if_pos rfl]
    · rw [RegFile.read_write_of_ne _ _ h4, if_neg h4]

theorem Wrapped.value_eq {v : ℕ} {s : State} (h : Wrapped v s) : redValue s = carried v := by
  have hlow := h.low
  have hlimbs : value 51 5 (limb 51 (v % 2 ^ 255)) = v % 2 ^ 255 :=
    value_limb_of_lt (Nat.mod_lt _ (Nat.two_pow_pos 255))
  have h0 : limb 51 (v % 2 ^ 255) 0 = v % 2 ^ 255 % 2 ^ 51 := by simp [limb]
  have h1 := h.limbs 1 (by decide) (by decide)
  have h2 := h.limbs 2 (by decide) (by decide)
  have h3 := h.limbs 3 (by decide) (by decide)
  have h4 := h.limbs 4 (by decide) (by decide)
  simp only [redValue, value_succ, value_zero, Nat.reduceMul] at hlimbs ⊢
  rw [hlow, h1, h2, h3, h4, carried]
  omega

/-- The first pass starts the second one. -/
theorem Carrying.again {v : ℕ} (hv : v < fieldP * 2 ^ 64) (i : MulInputs) (s : State)
    (h : Carrying v 0 4 s) : Carrying (carried v) 1 0 (step i s) := by
  have hp := fieldP_eq
  have hw := Carrying.wrap hv i s h
  have hlast : s.carryIndex = 4 := by
    apply BitVec.eq_of_toNat_eq
    rw [h.carryIndex]
    rfl
  have hpass : s.carryPass = 0 := by
    apply BitVec.eq_of_toNat_eq
    rw [h.carryPass]
    rfl
  have hbound : ∀ j < 5, 0 < j → ((step i s).red.read j).toNat < 2 ^ 51 := by
    intro j hj hpos
    rw [hw.limbs j hj hpos]
    exact limb_lt _ _ _
  have hvalue := hw.value_eq
  have hlow := hw.low
  have hstep : step i s = { step i s with
      state := .carry, carryIndex := 0, carryPass := 1, done := false } := by
    simp [step, h.state, carryStep, hlast, hpass]
  refine ⟨by rw [hstep], by rw [hstep]; rfl, by rw [hstep]; rfl, hvalue, ?_, ?_, ?_,
    by rw [hstep]⟩
  · intro j hj
    omega
  · intro j hj
    by_cases hj0 : j = 0
    · subst hj0
      omega
    · have := hbound j hj (by omega)
      omega
  · intro j hj hpos
    have := hbound j hj hpos
    omega

/-! ### Packing and the final subtraction -/

/-- After the second pass. -/
structure Packing (v : ℕ) (s : State) : Prop where
  state : s.state = .pack
  wrapped : Wrapped v s
  notDone : s.done = false

theorem Carrying.last {v : ℕ} (hv : v < fieldP * 2 ^ 64) (i : MulInputs) (s : State)
    (h : Carrying v 1 4 s) : Packing v (step i s) := by
  have hlast : s.carryIndex = 4 := by
    apply BitVec.eq_of_toNat_eq
    rw [h.carryIndex]
    rfl
  have hpass : s.carryPass = 1 := by
    apply BitVec.eq_of_toNat_eq
    rw [h.carryPass]
    rfl
  have hw := Carrying.wrap hv i s h
  refine ⟨?_, hw, ?_⟩ <;> simp [step, h.state, carryStep, hlast, hpass]

theorem toNat_append_add {m n : ℕ} (x : BitVec m) (y : BitVec n) :
    (x ++ y).toNat = x.toNat * 2 ^ n + y.toNat := by
  rw [BitVec.toNat_append, ← Nat.shiftLeft_add_eq_or_of_lt y.isLt, Nat.shiftLeft_eq]

theorem Wrapped.normalizedCandidate_toNat {v : ℕ} {s : State} (h : Wrapped v s) :
    (normalizedCandidate s).toNat = packed v := by
  have hlow := h.low
  have hlimbs : value 51 5 (limb 51 (v % 2 ^ 255)) = v % 2 ^ 255 :=
    value_limb_of_lt (Nat.mod_lt _ (Nat.two_pow_pos 255))
  have h0 : limb 51 (v % 2 ^ 255) 0 = v % 2 ^ 255 % 2 ^ 51 := by simp [limb]
  have h1 := h.limbs 1 (by decide) (by decide)
  have h2 := h.limbs 2 (by decide) (by decide)
  have h3 := h.limbs 3 (by decide) (by decide)
  have h4 := h.limbs 4 (by decide) (by decide)
  have hl := fun i => limb_lt 51 (v % 2 ^ 255) i
  have hl1 := hl 1
  have hl2 := hl 2
  have hl3 := hl 3
  have hl4 := hl 4
  simp only [value_succ, value_zero, Nat.reduceMul] at hlimbs
  simp only [normalizedCandidate, toNat_append_add, BitVec.toNat_setWidth]
  show ((s.red.read 4).toNat % 2 ^ 51) * _ + (((s.red.read 3).toNat % 2 ^ 51) * _ +
    (((s.red.read 2).toNat % 2 ^ 51) * _ + (((s.red.read 1).toNat % 2 ^ 51) * _ +
      (s.red.read 0).toNat % 2 ^ 51))) = _
  rw [hlow, h1, h2, h3, h4, Nat.mod_eq_of_lt hl1, Nat.mod_eq_of_lt hl2, Nat.mod_eq_of_lt hl3,
    Nat.mod_eq_of_lt hl4, packed]
  omega

/-- The candidate is in its register. -/
structure Reducing (v : ℕ) (s : State) : Prop where
  state : s.state = .reduce
  candidate : s.candidateReg.toNat = packed v
  notDone : s.done = false

theorem Packing.pack {v : ℕ} (i : MulInputs) (s : State) (h : Packing v s) :
    Reducing v (step i s) := by
  simp only [step, h.state]
  exact ⟨rfl, h.wrapped.normalizedCandidate_toNat, rfl⟩

/-- The comparison with `p` is registered. -/
structure Finishing (v : ℕ) (s : State) : Prop where
  state : s.state = .finish
  result : (reducedResult s).toNat =
    if fieldP ≤ packed v then packed v - fieldP else packed v
  notDone : s.done = false

theorem Reducing.reduce {v : ℕ} (i : MulInputs) (s : State) (h : Reducing v s) :
    Finishing v (step i s) := by
  have hp := fieldP_eq
  have hext : (candidateExt s).toNat = packed v := by
    rw [candidateExt, toNat_setWidth_of_le (by decide), h.candidate]
  have hpext : fieldPExt.toNat = fieldP := by
    rw [fieldPExt, BitVec.toNat_ofNat, hp]
  have hcandidate := s.candidateReg.isLt
  rw [h.candidate] at hcandidate
  have hle : (fieldPExt ≤ candidateExt s) ↔ fieldP ≤ packed v := by
    rw [BitVec.le_def, hext, hpext]
  simp only [step, h.state]
  refine ⟨rfl, ?_, rfl⟩
  show (if decide (fieldPExt ≤ candidateExt s) = true then
    (candidateMinusP s).setWidth 255 else s.candidateReg).toNat = _
  by_cases hge : fieldP ≤ packed v
  · rw [if_pos (decide_eq_true (hle.mpr hge)), if_pos hge, BitVec.toNat_setWidth,
      candidateMinusP, BitVec.toNat_sub, hext, hpext]
    omega
  · rw [if_neg (by rw [decide_eq_true_iff, hle]; exact hge), if_neg hge, h.candidate]

/-- The transaction is over. -/
structure Finished (r : ℕ) (s : State) : Prop where
  state : s.state = .idle
  done : s.done = true
  busy : s.busy = false
  result : s.result.toNat = r

theorem Finishing.finish {v : ℕ} (i : MulInputs) (s : State) (h : Finishing v s) :
    Finished (if fieldP ≤ packed v then packed v - fieldP else packed v) (step i s) := by
  simp only [step, h.state]
  exact ⟨rfl, rfl, rfl, h.result⟩

/-! ### A whole transaction -/

/-- `done` is low. -/
def NotDone (s : State) : Prop := s.done = false

theorem extractLsb_limb (x : BitVec 255) (i : ℕ) :
    (x.extractLsb' (i * 51) 51).toNat = limb 51 x.toNat i := by
  rw [BitVec.extractLsb'_toNat, Nat.shiftRight_eq_div_pow, limb, Nat.mul_comm]

/-- The cycle that samples `start`. -/
theorem load_multiplying {s : State} (hidle : s.state = .idle) {i : MulInputs}
    (hstart : i.start = true) : Multiplying i.a i.b 0 (step i s) := by
  simp only [step, hidle, hstart, if_true]
  refine ⟨rfl, ⟨?_, ?_⟩, rfl, rfl, ?_, ?_, ?_, rfl⟩
  · intro k hk
    show ((RegFile.ofFn _ : RegFile 5 51).read k).toNat = _
    rw [RegFile.read_ofFn _ hk, extractLsb_limb]
  · intro k hk
    show ((RegFile.ofFn _ : RegFile 5 51).read k).toNat = _
    rw [RegFile.read_ofFn _ hk, extractLsb_limb]
  all_goals
    intros
    omega

theorem Folding.fold {a b : BitVec 255} (i : MulInputs) (s : State) (h : Folding a b s) :
    Carrying (folded a.toNat b.toNat) 0 0 (step i s) := by
  have hle := fun d => diag_le a.toNat b.toNat d
  have hcoeff := h.coeff
  have hfold : ∀ k < 4, (highFold s k).toNat = 19 * diag a.toNat b.toNat (k + 5) := by
    intro k hk
    have hd := hle (k + 5)
    have hext : ((s.coeff.read (k + 5)).setWidth 120).toNat = diag a.toNat b.toNat (k + 5) := by
      rw [toNat_setWidth_of_le (by decide), hcoeff _ (by omega)]
    rw [highFold, times19_toNat, hext]
    rw [hext]
    omega
  have hred : ∀ k < 5, ((step i s).red.read k).toNat =
      diag a.toNat b.toNat k + if k < 4 then 19 * diag a.toNat b.toNat (k + 5) else 0 := by
    intro k hk
    have hd := hle k
    have hd5 := hle (k + 5)
    simp only [step, h.state, RegFile.read_ofFn _ hk]
    by_cases hk4 : k < 4
    · rw [if_pos hk4, if_pos hk4, BitVec.toNat_add, toNat_setWidth_of_le (by decide),
        hcoeff _ (by omega), hfold k hk4]
      omega
    · rw [if_neg hk4, if_neg hk4, BitVec.toNat_add, toNat_setWidth_of_le (by decide),
        hcoeff _ (by omega)]
      show (_ + 0) % _ = _
      omega
  have hbound : ∀ k < 5, ((step i s).red.read k).toNat < 2 ^ 109 := by
    intro k hk
    have hd := hle k
    have hd5 := hle (k + 5)
    rw [hred k hk]
    split <;> omega
  refine ⟨?_, ?_, ?_, value_congr hred, ?_, ?_, fun k hk _ => hbound k hk, ?_⟩
  · simp only [step, h.state]
  · simp only [step, h.state]
    rfl
  · simp only [step, h.state]
    rfl
  · intro k hk
    omega
  · intro k hk
    have := hbound k hk
    omega
  · simp only [step, h.state]

/-- One pass up to the top limb. -/
theorem carry_leads (v p : ℕ) : Leads step NotDone 4 (Carrying v p 0) (Carrying v p 4) :=
  Leads.loop 4 (fun _ hk i s h => h.next hk i s) fun _ _ _ h => h.notDone

/-- From the packed limbs to `done`. -/
theorem tail_leads (v : ℕ) : Leads step NotDone 3 (Packing v)
    (Finished (if fieldP ≤ packed v then packed v - fieldP else packed v)) := by
  have hpack : Leads step NotDone 1 (Packing v) (Reducing v) :=
    Leads.single fun i s h => h.pack i s
  have hreduce : Leads step NotDone 1 (Reducing v) (Finishing v) :=
    Leads.single fun i s h => h.reduce i s
  have hfinish : Leads step NotDone 1 (Finishing v)
      (Finished (if fieldP ≤ packed v then packed v - fieldP else packed v)) :=
    Leads.single fun i s h => h.finish i s
  exact hpack.trans (fun _ h => h.notDone) (hreduce.trans (fun _ h => h.notDone) hfinish)

/-- From the loaded operands to `done`: 24 cycles, `done` low on the way. -/
theorem mul_leads (a b : BitVec 255) :
    Leads step NotDone 24 (Multiplying a b 0) (Finished (settle (folded a.toNat b.toNat))) := by
  have hv := folded_lt a.toNat b.toNat
  have hmul : Leads step NotDone 9 (Multiplying a b 0) (Multiplying a b 9) :=
    Leads.loop 9 (fun _ hk i s h => h.next hk i s) fun _ _ _ h => h.notDone
  have hflush : Leads step NotDone 1 (Multiplying a b 9) (Folding a b) :=
    Leads.single fun i s h => h.flush i s
  have hfold : Leads step NotDone 1 (Folding a b) (Carrying (folded a.toNat b.toNat) 0 0) :=
    Leads.single fun i s h => h.fold i s
  have hagain : Leads step NotDone 1 (Carrying (folded a.toNat b.toNat) 0 4)
      (Carrying (carried (folded a.toNat b.toNat)) 1 0) :=
    Leads.single fun i s h => h.again hv i s
  have hcarried : carried (folded a.toNat b.toNat) < fieldP * 2 ^ 64 := by
    have hp := fieldP_eq
    rw [carried]
    omega
  have hlast : Leads step NotDone 1 (Carrying (carried (folded a.toNat b.toNat)) 1 4)
      (Packing (carried (folded a.toNat b.toNat))) :=
    Leads.single fun i s h => h.last hcarried i s
  have hmulFold := hmul.trans (fun _ h => h.notDone)
    (hflush.trans (fun _ h => h.notDone) hfold)
  have hpasses := (carry_leads _ 0).trans (fun _ h => h.notDone)
    (hagain.trans (fun _ h => h.notDone)
      ((carry_leads _ 1).trans (fun _ h => h.notDone) hlast))
  exact hmulFold.trans (fun _ h => h.notDone)
    (hpasses.trans (fun _ h => h.notDone) (tail_leads _))

/-- A transaction of the core: started in an idle state, it raises `done` for the
first time 25 cycles later, with the settled fold of the operands. -/
theorem mul_run {s : State} (hidle : s.state = .idle) (inputs : ℕ → MulInputs)
    (hstart : (inputs 0).start = true) :
    Finished (settle (folded (inputs 0).a.toNat (inputs 0).b.toNat)) (run step inputs s 25) ∧
      ∀ m, 0 < m → m < 25 → (run step inputs s m).done = false := by
  have hload := load_multiplying hidle hstart
  obtain ⟨hend, hbefore⟩ := mul_leads _ _ (fun k => inputs (k + 1)) _ hload
  refine ⟨by rw [run_succ']; exact hend, ?_⟩
  intro m hpos hlt
  obtain ⟨k, rfl⟩ : ∃ k, m = k + 1 := ⟨m - 1, by omega⟩
  rw [run_succ']
  rcases Nat.eq_zero_or_pos k with rfl | hk
  · exact hload.notDone
  · exact hbefore k hk (by omega)

end Fe25519MulWideCore

end Kv260Sigv
