import Kv260Sigv.Rtl.Fe25519MulCore
import Kv260Sigv.Rtl.Fe25519MulWideResult

/-!
# The two multipliers compared

The 17x15-limb core forms the exact product, folds it twice and subtracts `p`
once, so its result is the product modulo `p` on all operands.  The 5x51-limb
core agrees with it on exactly the operands that do not spill.
-/

namespace Kv260Sigv

namespace Fe25519MulCore

open Clocked Limbs
open Fe25519MulWideCore (toNat_setWidth_of_le times19_toNat)

/-! ### The multiplication phase -/

/-- The operand limbs are loaded. -/
def Loaded (a b : BitVec 255) (s : State) : Prop :=
  (∀ i < 17, (s.aLimb.read i).toNat = limb 15 a.toNat i) ∧
    ∀ i < 17, (s.bLimb.read i).toNat = limb 15 b.toNat i

/-- Column `k` after `t` cycles: the finished rows, and the part of the current
row that has been formed. -/
def partialColumn (a b t k : ℕ) : ℕ :=
  column (limb 15 a) (limb 15 b) (t / 5) 17 k +
    row (limb 15 a) (limb 15 b) (t / 5) (4 * (t % 5)) k

theorem row_le (a b i n k : ℕ) : row (limb 15 a) (limb 15 b) i n k ≤ 2 ^ 30 := by
  unfold row
  split
  · have ha := limb_lt 15 a i
    have hb := limb_lt 15 b (k - i)
    calc limb 15 a i * limb 15 b (k - i) ≤ 2 ^ 15 * 2 ^ 15 := Nat.mul_le_mul ha.le hb.le
      _ = 2 ^ 30 := by rw [← pow_add]
  · exact Nat.zero_le _

theorem column_le (a b m k : ℕ) : column (limb 15 a) (limb 15 b) m 17 k ≤ m * 2 ^ 30 := by
  have h := Finset.sum_le_card_nsmul (Finset.range m)
    (fun i => row (limb 15 a) (limb 15 b) i 17 k) (2 ^ 30) fun i _ => row_le a b i 17 k
  simpa [column] using h

theorem partialColumn_le {t : ℕ} (ht : t ≤ 85) (a b k : ℕ) :
    partialColumn a b t k ≤ 18 * 2 ^ 30 := by
  have hcolumn := column_le a b (t / 5) k
  have hrow := row_le a b (t / 5) (4 * (t % 5)) k
  unfold partialColumn
  omega

/-- Before multiplication cycle `t`; at `t = 85` the columns are complete. -/
structure Multiplying (a b : BitVec 255) (t : ℕ) (s : State) : Prop where
  state : s.state = if t < 85 then .mul else .norm
  loaded : Loaded a b s
  mulI : t < 85 → s.mulI.toNat = t / 5
  mulJ : t < 85 → s.mulJ.toNat = 4 * (t % 5)
  accum : ∀ k < 34, (s.accum.read k).toNat = partialColumn a.toNat b.toNat t k
  normIndex : s.normIndex = 0
  productReg : s.productReg = 0
  notDone : s.done = false

theorem limbProductExt_toNat {a b : BitVec 255} {s : State} (hs : Loaded a b s) {l : ℕ}
    (hi : s.mulI.toNat < 17) (hj : (laneJ s l).toNat < 17) :
    (limbProductExt s l).toNat =
      limb 15 a.toNat s.mulI.toNat * limb 15 b.toNat (laneJ s l).toNat := by
  have ha := limb_lt 15 a.toNat s.mulI.toNat
  have hb := limb_lt 15 b.toNat (laneJ s l).toNat
  rw [limbProductExt, toNat_setWidth_of_le (by decide), BitVec.toNat_mul,
    toNat_setWidth_of_le (by decide), toNat_setWidth_of_le (by decide), hs.1 _ hi, hs.2 _ hj]
  refine Nat.mod_eq_of_lt ?_
  calc limb 15 a.toNat s.mulI.toNat * limb 15 b.toNat (laneJ s l).toNat
      < 2 ^ 15 * 2 ^ 15 := Nat.mul_lt_mul'' ha hb
    _ = 2 ^ 30 := by rw [← pow_add]

/-- The lanes in use are those that stay inside the row. -/
theorem laneValid_eq : ∀ l < 5, ∀ g < 5,
    laneValid l (BitVec.ofNat 5 (4 * g)) = decide (l < 4 ∧ 4 * g + l < 17) := by
  decide

/-- One lane adds its term to its column. -/
theorem accumulateLane_toNat {a b : BitVec 255} {t : ℕ} {s : State} (h : Multiplying a b t s)
    (ht : t < 85) (file : RegFile 34 40) {l k : ℕ} (hl : l < 5) (hk : k < 34) :
    ((accumulateLane s file l).read k).toNat =
      if (l < 4 ∧ 4 * (t % 5) + l < 17) ∧ k = t / 5 + (4 * (t % 5) + l) then
        partialColumn a.toNat b.toNat t k +
          limb 15 a.toNat (t / 5) * limb 15 b.toNat (k - t / 5)
      else (file.read k).toNat := by
  have hmulJ : s.mulJ = BitVec.ofNat 5 (4 * (t % 5)) := by
    apply BitVec.eq_of_toNat_eq
    rw [h.mulJ ht, BitVec.toNat_ofNat, Nat.mod_eq_of_lt (show 4 * (t % 5) < 2 ^ 5 by omega)]
  have hvalid : laneValid l s.mulJ = decide (l < 4 ∧ 4 * (t % 5) + l < 17) := by
    rw [hmulJ]
    exact laneValid_eq l hl (t % 5) (by omega)
  rw [accumulateLane, hvalid]
  by_cases hin : l < 4 ∧ 4 * (t % 5) + l < 17
  · have hj : (laneJ s l).toNat = 4 * (t % 5) + l := by
      rw [laneJ, hvalid, if_pos (decide_eq_true hin), BitVec.toNat_add, h.mulJ ht,
        BitVec.toNat_ofNat]
      omega
    have hindex : (accumIndex s l).toNat = t / 5 + (4 * (t % 5) + l) := by
      rw [accumIndex, BitVec.toNat_add, toNat_setWidth_of_le (by decide),
        toNat_setWidth_of_le (by decide), h.mulI ht, hj]
      omega
    have hterm := limbProductExt_toNat h.loaded (l := l) (by rw [h.mulI ht]; omega)
      (by rw [hj]; omega)
    rw [h.mulI ht, hj] at hterm
    rw [if_pos (decide_eq_true hin), hindex]
    by_cases hhit : k = t / 5 + (4 * (t % 5) + l)
    · have hle := partialColumn_le (Nat.le_of_lt ht) a.toNat b.toNat k
      have hrow := row_le a.toNat b.toNat (t / 5) 17 k
      rw [row, if_pos (by omega)] at hrow
      rw [if_pos ⟨hin, hhit⟩, ← hhit, RegFile.read_write_self _ _ hk, BitVec.toNat_add,
        h.accum k hk, hterm, show 4 * (t % 5) + l = k - t / 5 by omega]
      omega
    · rw [if_neg (fun hc => hhit hc.2), RegFile.read_write_of_ne _ _ hhit]
  · rw [if_neg (by simpa using hin), if_neg (fun hc => hin hc.1)]

/-- One cycle extends the current row by its next four terms. -/
theorem accumulate_toNat {a b : BitVec 255} {t : ℕ} {s : State} (h : Multiplying a b t s)
    (ht : t < 85) {k : ℕ} (hk : k < 34) :
    ((accumulate s).read k).toNat = partialColumn a.toNat b.toNat (t + 1) k := by
  have hlane := fun file l hl => accumulateLane_toNat h ht file (l := l) (k := k) hl hk
  have hnext : partialColumn a.toNat b.toNat (t + 1) k =
      column (limb 15 a.toNat) (limb 15 b.toNat) (t / 5) 17 k +
        row (limb 15 a.toNat) (limb 15 b.toNat) (t / 5) (min (4 * (t % 5) + 4) 17) k := by
    unfold partialColumn
    by_cases hend : t % 5 = 4
    · have hempty : row (limb 15 a.toNat) (limb 15 b.toNat) (t / 5 + 1) 0 k = 0 := by
        rw [row, if_neg (by omega)]
      rw [show (t + 1) / 5 = t / 5 + 1 by omega, show (t + 1) % 5 = 0 by omega, hend,
        Nat.mul_zero, hempty, column, Finset.sum_range_succ]
      rfl
    · rw [show (t + 1) / 5 = t / 5 by omega, show 4 * ((t + 1) % 5) = 4 * (t % 5) + 4 by omega,
        Nat.min_eq_left (by omega)]
  rw [hnext]
  simp only [accumulate, List.foldl_cons, List.foldl_nil, hlane _ 4 (by decide),
    hlane _ 3 (by decide), hlane _ 2 (by decide), hlane _ 1 (by decide), hlane _ 0 (by decide),
    h.accum k hk]
  -- at most one lane hits the column, and it adds the term of the row
  simp only [partialColumn, row]
  generalize limb 15 a.toNat (t / 5) * limb 15 b.toNat (k - t / 5) = term
  generalize column (limb 15 a.toNat) (limb 15 b.toNat) (t / 5) 17 k = old
  split_ifs <;> omega

theorem Multiplying.next {a b : BitVec 255} {t : ℕ} (ht : t < 85) (i : MulInputs) (s : State)
    (h : Multiplying a b t s) : Multiplying a b (t + 1) (step i s) := by
  have hstate := h.state
  rw [if_pos ht] at hstate
  have hmulI := h.mulI ht
  have hmulJ := h.mulJ ht
  have hrow : (13 : BitVec 5) ≤ s.mulJ ↔ t % 5 = 4 := by
    rw [BitVec.le_def, hmulJ, show (13 : BitVec 5).toNat = 13 from rfl]
    omega
  have hlast : s.mulI = 16 ↔ t / 5 = 16 := by
    rw [← BitVec.toNat_inj, hmulI]
    rfl
  simp only [step, hstate, hrow, hlast, Bool.and_eq_true, Bool.not_eq_true', decide_eq_true_eq,
    decide_eq_false_iff_not]
  refine ⟨?_, h.loaded, ?_, ?_, fun k hk => accumulate_toNat h ht hk, ?_, h.productReg, rfl⟩
  · show (if t % 5 = 4 ∧ t / 5 = 16 then Phase.norm else Phase.mul) = _
    by_cases hend : t + 1 < 85
    · rw [if_neg (by omega), if_pos hend]
    · rw [if_pos (by omega), if_neg hend]
  · intro ht'
    show (if t % 5 = 4 ∧ ¬ t / 5 = 16 then s.mulI + 1 else s.mulI).toNat = _
    by_cases hend : t % 5 = 4
    · rw [if_pos (by omega), BitVec.toNat_add, hmulI, show (1 : BitVec 5).toNat = 1 from rfl]
      omega
    · rw [if_neg (by omega), hmulI]
      omega
  · intro ht'
    show (if t % 5 = 4 then (0 : BitVec 5) else s.mulJ + 4).toNat = _
    by_cases hend : t % 5 = 4
    · rw [if_pos hend, show (0 : BitVec 5).toNat = 0 from rfl]
      omega
    · rw [if_neg hend, BitVec.toNat_add, hmulJ, show (4 : BitVec 5).toNat = 4 from rfl]
      omega
  · show (if t % 5 = 4 ∧ t / 5 = 16 then (0 : BitVec 6) else s.normIndex) = 0
    rw [h.normIndex]
    split <;> rfl

/-! ### Normalization -/

/-- Before normalization step `k`: the low `k` limbs of `n` are in the product
register and the columns from `k` on hold the rest of `n`. -/
structure Normalizing (n k : ℕ) (s : State) : Prop where
  state : s.state = .norm
  normIndex : s.normIndex.toNat = k
  productReg : s.productReg.toNat = n % 2 ^ (15 * k)
  rest : value 15 (34 - k) (fun j => (s.accum.read (k + j)).toNat) = n / 2 ^ (15 * k)
  bound : ∀ j < 34, (s.accum.read j).toNat < 2 ^ 39
  ahead : ∀ j < 34, k < j → (s.accum.read j).toNat ≤ 18 * 2 ^ 30
  notDone : s.done = false

theorem Multiplying.complete {a b : BitVec 255} {s : State} (h : Multiplying a b 85 s) :
    Normalizing (a.toNat * b.toNat) 0 s := by
  have hle := fun k => partialColumn_le (le_refl 85) a.toNat b.toNat k
  have hcolumn : partialColumn a.toNat b.toNat 85 =
      column (limb 15 a.toNat) (limb 15 b.toNat) 17 17 := by
    funext k
    have hempty : row (limb 15 a.toNat) (limb 15 b.toNat) 17 0 k = 0 := by
      rw [row, if_neg (by omega)]
    rw [partialColumn, show 85 / 5 = 17 from rfl, show 4 * (85 % 5) = 0 from rfl, hempty,
      Nat.add_zero]
  have ha : value 15 17 (limb 15 a.toNat) = a.toNat := value_limb_of_lt a.isLt
  have hb : value 15 17 (limb 15 b.toNat) = b.toNat := value_limb_of_lt b.isLt
  have hproduct : value 15 34 (partialColumn a.toNat b.toNat 85) = a.toNat * b.toNat := by
    rw [hcolumn, show 34 = 17 + 17 from rfl, value_column, ha, hb]
  refine ⟨h.state, by rw [h.normIndex]; rfl, ?_, ?_, ?_, ?_, h.notDone⟩
  · rw [h.productReg, Nat.mul_zero, pow_zero, Nat.mod_one]
    exact BitVec.toNat_zero
  · rw [Nat.mul_zero, pow_zero, Nat.div_one, ← hproduct]
    refine value_congr ?_
    intro k hk
    rw [Nat.zero_add]
    exact h.accum k hk
  · intro j hj
    have := hle j
    rw [h.accum j hj]
    omega
  · intro j hj _
    rw [h.accum j hj]
    exact hle j

theorem Normalizing.split {n k : ℕ} (hk : k < 34) {s : State} (h : Normalizing n k s) :
    n / 2 ^ (15 * k) = (s.accum.read k).toNat +
      2 ^ 15 * value 15 (33 - k) fun j => (s.accum.read (k + 1 + j)).toNat := by
  rw [← h.rest, show 34 - k = 1 + (33 - k) by omega, value_add]
  simp only [value_succ, value_zero, Nat.mul_zero, pow_zero, Nat.mul_one, Nat.zero_add,
    Nat.add_zero, Nat.add_assoc]

/-- The product register after one more limb. -/
theorem Normalizing.productReg_next {n k : ℕ} (hk : k < 34) {s : State}
    (h : Normalizing n k s) :
    (s.productReg.writeSlice (s.normIndex.toNat * 15)
      ((s.accum.read s.normIndex.toNat).setWidth 15)).toNat = n % 2 ^ (15 * (k + 1)) := by
  have hlt : s.productReg.toNat < 2 ^ (k * 15) := by
    rw [h.productReg, Nat.mul_comm]
    exact Nat.mod_lt _ (Nat.two_pow_pos _)
  rw [h.normIndex, BitVec.toNat_writeSlice hlt (by omega), h.productReg, BitVec.toNat_setWidth,
    Nat.mul_succ 15 k, pow_add, Nat.mod_mul, h.split hk, Nat.add_mul_mod_self_left,
    Nat.mul_comm k 15]

/-- What is left of `n` above the limb just stored. -/
theorem Normalizing.rest_next {n k : ℕ} (hk : k < 34) {s : State} (h : Normalizing n k s) :
    n / 2 ^ (15 * (k + 1)) = (s.accum.read k).toNat / 2 ^ 15 +
      value 15 (33 - k) fun j => (s.accum.read (k + 1 + j)).toNat := by
  rw [Nat.mul_succ, pow_add, ← Nat.div_div_eq_div_mul, h.split hk,
    Nat.add_mul_div_left _ _ (Nat.two_pow_pos 15)]

theorem Normalizing.next {n k : ℕ} (hk : k < 33) (i : MulInputs) (s : State)
    (h : Normalizing n k s) : Normalizing n (k + 1) (step i s) := by
  have hproduct := h.productReg_next (by omega)
  have hrest := h.rest_next (by omega)
  have hlast : s.normIndex ≠ 33 := by
    intro h33
    have := h.normIndex
    rw [h33, show (33 : BitVec 6).toNat = 33 from rfl] at this
    omega
  have hindex : (s.normIndex + 1).toNat = k + 1 := by
    rw [BitVec.toNat_add, h.normIndex, show (1 : BitVec 6).toNat = 1 from rfl]
    omega
  have hahead := h.ahead (k + 1) (by omega) (by omega)
  have hbound := h.bound k (by omega)
  have hsum : (s.accum.read (k + 1) + s.accum.read k >>> 15).toNat =
      (s.accum.read (k + 1)).toNat + (s.accum.read k).toNat / 2 ^ 15 := by
    rw [BitVec.toNat_add, BitVec.toNat_ushiftRight, Nat.shiftRight_eq_div_pow]
    omega
  have hread : ∀ j < 34, ((s.accum.write (k + 1)
      (s.accum.read (k + 1) + s.accum.read k >>> 15)).read j).toNat =
        if j = k + 1 then (s.accum.read (k + 1)).toNat + (s.accum.read k).toNat / 2 ^ 15
        else (s.accum.read j).toNat := by
    intro j hj
    by_cases hhit : j = k + 1
    · rw [hhit, RegFile.read_write_self _ _ (by omega), if_pos rfl, hsum]
    · rw [RegFile.read_write_of_ne _ _ hhit, if_neg hhit]
  simp only [step, h.state, if_neg hlast]
  refine ⟨rfl, hindex, hproduct, ?_, ?_, ?_, rfl⟩
  all_goals simp only [hindex, h.normIndex]
  · -- the carry joins the first column that is left
    rw [hrest, show 34 - (k + 1) = 1 + (32 - k) by omega, show 33 - k = 1 + (32 - k) by omega,
      value_add, value_add]
    have htail : (value 15 (32 - k) fun j => ((s.accum.write (k + 1)
        (s.accum.read (k + 1) + s.accum.read k >>> 15)).read (k + 1 + (1 + j))).toNat) =
          value 15 (32 - k) fun j => (s.accum.read (k + 1 + (1 + j))).toNat := by
      refine value_congr ?_
      intro j hj
      rw [hread _ (by omega), if_neg (by omega)]
    rw [htail]
    simp only [value_succ, value_zero, Nat.mul_zero, pow_zero, Nat.mul_one, Nat.zero_add,
      Nat.add_zero]
    rw [hread _ (by omega), if_pos rfl]
    omega
  · intro j hj
    rw [hread j hj]
    have := h.bound j hj
    split <;> omega
  · intro j hj hlt
    rw [hread j hj, if_neg (by omega)]
    exact h.ahead j hj (by omega)

/-! ### Folding and the final subtraction -/

/-- The product register holds `n`. -/
structure Folding (n : ℕ) (s : State) : Prop where
  state : s.state = .fold1
  productReg : s.productReg.toNat = n
  notDone : s.done = false

theorem Normalizing.last {n : ℕ} (hn : n < 2 ^ 255 * 2 ^ 255) (i : MulInputs) (s : State)
    (h : Normalizing n 33 s) : Folding n (step i s) := by
  have hproduct := h.productReg_next (by decide)
  have hlast : s.normIndex = 33 := by
    apply BitVec.eq_of_toNat_eq
    rw [h.normIndex]
    rfl
  simp only [step, h.state, if_pos hlast]
  rw [show 15 * (33 + 1) = 255 + 255 from rfl, pow_add, Nat.mod_eq_of_lt hn] at hproduct
  exact ⟨rfl, hproduct, rfl⟩

/-- A fold: the part above `2 ^ 255` is multiplied by 19 and added to the rest. -/
def fold (n : ℕ) : ℕ := n % 2 ^ 255 + 19 * (n / 2 ^ 255)

theorem fold_mod (n : ℕ) : fold n % fieldP = n % fieldP := by
  have hsplit : n = fold n + fieldP * (n / 2 ^ 255) := by
    have hp := Fe25519MulWideCore.fieldP_eq
    unfold fold
    rw [hp]
    omega
  conv_rhs => rw [hsplit, Nat.add_mul_mod_self_left]

/-- The first fold is in its register. -/
structure Folding2 (n : ℕ) (s : State) : Prop where
  state : s.state = .fold2
  fold1Reg : s.fold1Reg.toNat = fold n
  notDone : s.done = false

theorem Folding.next {n : ℕ} (hn : n < 2 ^ 255 * 2 ^ 255) (i : MulInputs) (s : State)
    (h : Folding n s) : Folding2 n (step i s) := by
  have hhigh : n / 2 ^ 255 < 2 ^ 255 := Nat.div_lt_of_lt_mul hn
  have hlow : ((s.productReg.extractLsb' 0 255).setWidth 260).toNat = n % 2 ^ 255 := by
    rw [toNat_setWidth_of_le (by decide), BitVec.extractLsb'_toNat, h.productReg,
      Nat.shiftRight_zero]
  have hup : ((s.productReg.extractLsb' 255 255).setWidth 260).toNat = n / 2 ^ 255 := by
    rw [toNat_setWidth_of_le (by decide), BitVec.extractLsb'_toNat, h.productReg,
      Nat.shiftRight_eq_div_pow, Nat.mod_eq_of_lt hhigh]
  simp only [step, h.state]
  refine ⟨rfl, ?_, rfl⟩
  show (fold1Next s).toNat = fold n
  rw [fold1Next, BitVec.toNat_add, hlow, times19_toNat (by rw [hup]; omega), hup, fold]
  omega

/-- The second fold is in its register. -/
structure Reducing (n : ℕ) (s : State) : Prop where
  state : s.state = .reduce
  fold2Reg : s.fold2Reg.toNat = fold (fold n)
  notDone : s.done = false

theorem Folding2.next {n : ℕ} (hn : n < 2 ^ 255 * 2 ^ 255) (i : MulInputs) (s : State)
    (h : Folding2 n s) : Reducing n (step i s) := by
  have hhigh : n / 2 ^ 255 < 2 ^ 255 := Nat.div_lt_of_lt_mul hn
  have hfold : fold n < 2 ^ 260 := by
    unfold fold
    omega
  have hlow : ((s.fold1Reg.extractLsb' 0 255).setWidth 256).toNat = fold n % 2 ^ 255 := by
    rw [toNat_setWidth_of_le (by decide), BitVec.extractLsb'_toNat, h.fold1Reg,
      Nat.shiftRight_zero]
  have hup : ((s.fold1Reg.extractLsb' 255 5).setWidth 256).toNat = fold n / 2 ^ 255 := by
    rw [toNat_setWidth_of_le (by decide), BitVec.extractLsb'_toNat, h.fold1Reg,
      Nat.shiftRight_eq_div_pow]
    omega
  simp only [step, h.state]
  refine ⟨rfl, ?_, rfl⟩
  show (combinedFold2Next s).toNat = fold (fold n)
  rw [combinedFold2Next, BitVec.toNat_add, hlow, times19_toNat (by rw [hup]; omega), hup]
  show _ = fold n % 2 ^ 255 + 19 * (fold n / 2 ^ 255)
  omega

/-- The comparison with `p` is registered. -/
structure Finishing (n : ℕ) (s : State) : Prop where
  state : s.state = .finish
  result : (reducedResult s).toNat = n % fieldP
  notDone : s.done = false

theorem Reducing.next {n : ℕ} (hn : n < 2 ^ 255 * 2 ^ 255) (i : MulInputs) (s : State)
    (h : Reducing n s) : Finishing n (step i s) := by
  have hp := Fe25519MulWideCore.fieldP_eq
  have hhigh : n / 2 ^ 255 < 2 ^ 255 := Nat.div_lt_of_lt_mul hn
  have hfold : fold n < 2 ^ 260 := by
    unfold fold
    omega
  have hsmall : fold (fold n) < 2 * fieldP := by
    show fold n % 2 ^ 255 + 19 * (fold n / 2 ^ 255) < _
    omega
  have hmod : n % fieldP = fold (fold n) % fieldP := by rw [fold_mod, fold_mod]
  have hpext : Fe25519MulWideCore.fieldPExt.toNat = fieldP := by
    rw [Fe25519MulWideCore.fieldPExt, BitVec.toNat_ofNat, hp]
  have hle : (Fe25519MulWideCore.fieldPExt ≤ s.fold2Reg) ↔ fieldP ≤ fold (fold n) := by
    rw [BitVec.le_def, h.fold2Reg, hpext]
  simp only [step, h.state]
  refine ⟨rfl, ?_, rfl⟩
  show (if decide (Fe25519MulWideCore.fieldPExt ≤ s.fold2Reg) = true then
    (fold2MinusP s).setWidth 255 else s.fold2Reg.setWidth 255).toNat = _
  rw [hmod]
  by_cases hge : fieldP ≤ fold (fold n)
  · rw [if_pos (decide_eq_true (hle.mpr hge)), BitVec.toNat_setWidth, fold2MinusP,
      BitVec.toNat_sub, h.fold2Reg, hpext, Nat.mod_eq_sub_mod hge,
      Nat.mod_eq_of_lt (show fold (fold n) - fieldP < fieldP by omega)]
    omega
  · rw [if_neg (by rw [decide_eq_true_iff, hle]; exact hge), BitVec.toNat_setWidth, h.fold2Reg,
      Nat.mod_eq_of_lt (show fold (fold n) < fieldP by omega)]
    omega

/-- The transaction is over. -/
structure Finished (r : ℕ) (s : State) : Prop where
  state : s.state = .idle
  done : s.done = true
  busy : s.busy = false
  result : s.result.toNat = r

theorem Finishing.next {n : ℕ} (i : MulInputs) (s : State) (h : Finishing n s) :
    Finished (n % fieldP) (step i s) := by
  simp only [step, h.state]
  exact ⟨rfl, rfl, rfl, h.result⟩

/-! ### Nothing overflows -/

/-- No operation of the cycle loses a bit: the accumulators take the sums they are given,
the top limb of the product fits, the folds fit their registers and the difference fits the
result.  When the product is complete it is `n`. -/
def Lossless (n : ℕ) (s : State) : Prop :=
  match s.state with
  | .mul =>
      ∀ l < 5, laneValid l s.mulJ = true →
        (s.accum.read (accumIndex s l).toNat).toNat +
          (s.aLimb.read s.mulI.toNat).toNat * (s.bLimb.read (laneJ s l).toNat).toNat < 2 ^ 40
  | .norm =>
      if s.normIndex = 33 then (s.accum.read 33).toNat < 2 ^ 15
      else (s.accum.read (s.normIndex + 1).toNat).toNat +
        (s.accum.read s.normIndex.toNat).toNat / 2 ^ 15 < 2 ^ 40
  | .fold1 => s.productReg.toNat = n ∧
      s.productReg.toNat % 2 ^ 255 + 19 * (s.productReg.toNat / 2 ^ 255) < 2 ^ 260
  | .fold2 => s.fold1Reg.toNat % 2 ^ 255 + 19 * (s.fold1Reg.toNat / 2 ^ 255) < 2 ^ 256
  | .reduce => s.fold2Reg.toNat - fieldP < 2 ^ 255
  | .idle | .finish => True

theorem Multiplying.lossless {a b : BitVec 255} {n t : ℕ} (ht : t ≤ 85) {s : State}
    (h : Multiplying a b t s) : Lossless n s := by
  have hbound : ∀ k < 34, (s.accum.read k).toNat ≤ 18 * 2 ^ 30 := by
    intro k hk
    rw [h.accum k hk]
    exact partialColumn_le ht _ _ k
  have hstate := h.state
  by_cases hlt : t < 85
  · rw [if_pos hlt] at hstate
    simp only [Lossless, hstate]
    intro l hl hvalid
    have hmulI := h.mulI hlt
    have hmulJ := h.mulJ hlt
    have hfit : l < 4 ∧ 4 * (t % 5) + l < 17 := by
      have hj : s.mulJ = BitVec.ofNat 5 (4 * (t % 5)) := by
        apply BitVec.eq_of_toNat_eq
        rw [hmulJ, BitVec.toNat_ofNat, Nat.mod_eq_of_lt (show 4 * (t % 5) < 2 ^ 5 by omega)]
      rw [hj, laneValid_eq l hl (t % 5) (by omega)] at hvalid
      exact of_decide_eq_true hvalid
    have hlane : (laneJ s l).toNat = 4 * (t % 5) + l := by
      rw [laneJ, if_pos hvalid, BitVec.toNat_add, hmulJ, BitVec.toNat_ofNat]
      omega
    have hindex : (accumIndex s l).toNat = t / 5 + (4 * (t % 5) + l) := by
      rw [accumIndex, BitVec.toNat_add, toNat_setWidth_of_le (by decide),
        toNat_setWidth_of_le (by decide), hmulI, hlane]
      omega
    have haccum := hbound (accumIndex s l).toNat (by rw [hindex]; omega)
    have hterm := Nat.mul_lt_mul'' (s.aLimb.read s.mulI.toNat).isLt
      (s.bLimb.read (laneJ s l).toNat).isLt
    rw [← pow_add] at hterm
    omega
  · rw [if_neg hlt] at hstate
    have h0 := hbound 0 (by decide)
    have h1 := hbound 1 (by decide)
    simp only [Lossless, hstate, h.normIndex]
    rw [if_neg (by decide), show ((0 : BitVec 6) + 1).toNat = 1 from rfl,
      show (0 : BitVec 6).toNat = 0 from rfl]
    omega

theorem Normalizing.lossless {n k : ℕ} (hn : n < 2 ^ 255 * 2 ^ 255) (hk : k ≤ 33) {s : State}
    (h : Normalizing n k s) : Lossless n s := by
  simp only [Lossless, h.state]
  by_cases hlast : s.normIndex = 33
  · have hk33 : k = 33 := by
      rw [← h.normIndex, hlast]
      rfl
    subst hk33
    have hrest := h.rest
    simp only [show 34 - 33 = 1 from rfl, value_succ, value_zero, Nat.mul_zero, pow_zero,
      Nat.mul_one, Nat.zero_add, Nat.add_zero] at hrest
    rw [if_pos hlast, hrest]
    refine Nat.div_lt_of_lt_mul ?_
    calc n < 2 ^ 255 * 2 ^ 255 := hn
      _ = 2 ^ (15 * 33) * 2 ^ 15 := by rw [← pow_add, ← pow_add]
  · have hne : k ≠ 33 := by
      rintro rfl
      refine hlast (BitVec.eq_of_toNat_eq ?_)
      rw [h.normIndex]
      rfl
    have hindex : (s.normIndex + 1).toNat = k + 1 := by
      rw [BitVec.toNat_add, h.normIndex, show (1 : BitVec 6).toNat = 1 from rfl]
      omega
    have hahead := h.ahead (k + 1) (by omega) (by omega)
    have hbound := h.bound k (by omega)
    rw [if_neg hlast, hindex, h.normIndex]
    omega

theorem Folding.lossless {n : ℕ} (hn : n < 2 ^ 255 * 2 ^ 255) {s : State} (h : Folding n s) :
    Lossless n s := by
  have hhigh : n / 2 ^ 255 < 2 ^ 255 := Nat.div_lt_of_lt_mul hn
  simp only [Lossless, h.state]
  rw [h.productReg]
  exact ⟨rfl, by omega⟩

theorem Folding2.lossless {n : ℕ} {s : State} (h : Folding2 n s) : Lossless n s := by
  have hlt := s.fold1Reg.isLt
  simp only [Lossless, h.state]
  omega

theorem Reducing.lossless {n : ℕ} (hn : n < 2 ^ 255 * 2 ^ 255) {s : State} (h : Reducing n s) :
    Lossless n s := by
  have hp := Fe25519MulWideCore.fieldP_eq
  have hhigh : n / 2 ^ 255 < 2 ^ 255 := Nat.div_lt_of_lt_mul hn
  have hfold : fold n < 2 ^ 260 := by
    unfold fold
    omega
  simp only [Lossless, h.state, h.fold2Reg]
  show fold n % 2 ^ 255 + 19 * (fold n / 2 ^ 255) - fieldP < 2 ^ 255
  omega

theorem Finishing.lossless {n : ℕ} {s : State} (h : Finishing n s) : Lossless n s := by
  simp only [Lossless, h.state]

/-! ### A whole transaction -/

/-- `done` is low. -/
def NotDone (s : State) : Prop := s.done = false

/-- `done` is low and nothing overflows. -/
def Working (n : ℕ) (s : State) : Prop := NotDone s ∧ Lossless n s

theorem load_multiplying {s : State} (hidle : s.state = .idle) {i : MulInputs}
    (hstart : i.start = true) : Multiplying i.a i.b 0 (step i s) := by
  have hlimb : ∀ (x : BitVec 255) (k : ℕ),
      (x.extractLsb' (k * 15) 15).toNat = limb 15 x.toNat k := by
    intro x k
    rw [BitVec.extractLsb'_toNat, Nat.shiftRight_eq_div_pow, limb, Nat.mul_comm]
  have hstep : step i s = load i := by simp only [step, hidle, hstart, if_true]
  rw [hstep]
  refine ⟨rfl, ⟨?_, ?_⟩, fun _ => rfl, fun _ => rfl, ?_, rfl, ?_, rfl⟩
  · intro k hk
    simp only [load, RegFile.read_ofFn _ hk, hlimb]
  · intro k hk
    simp only [load, RegFile.read_ofFn _ hk, hlimb]
  · intro k hk
    have hrow : partialColumn i.a.toNat i.b.toNat 0 k = 0 := by
      rw [partialColumn, row, if_neg (by omega)]
      rfl
    rw [hrow]
    simp [load, reset]
  · simp only [load, reset]

theorem mul_leads (a b : BitVec 255) :
    Leads step (Working (a.toNat * b.toNat)) 123 (Multiplying a b 0)
      (Finished (a.toNat * b.toNat % fieldP)) := by
  have hn : a.toNat * b.toNat < 2 ^ 255 * 2 ^ 255 := Nat.mul_lt_mul'' a.isLt b.isLt
  have hmul : Leads step (Working (a.toNat * b.toNat)) 85 (Multiplying a b 0)
      (Multiplying a b 85) :=
    Leads.loop 85 (fun _ ht i s h => h.next ht i s) fun _ ht _ h => ⟨h.notDone, h.lossless ht⟩
  have hnorm : Leads step (Working (a.toNat * b.toNat)) 33 (Normalizing (a.toNat * b.toNat) 0)
      (Normalizing (a.toNat * b.toNat) 33) :=
    Leads.loop 33 (fun _ hk i s h => h.next hk i s) fun _ hk _ h => ⟨h.notDone, h.lossless hn hk⟩
  have hlast : Leads step (Working (a.toNat * b.toNat)) 1 (Normalizing (a.toNat * b.toNat) 33)
      (Folding (a.toNat * b.toNat)) :=
    Leads.single fun i s h => h.last hn i s
  have hfold1 : Leads step (Working (a.toNat * b.toNat)) 1 (Folding (a.toNat * b.toNat))
      (Folding2 (a.toNat * b.toNat)) :=
    Leads.single fun i s h => h.next hn i s
  have hfold2 : Leads step (Working (a.toNat * b.toNat)) 1 (Folding2 (a.toNat * b.toNat))
      (Reducing (a.toNat * b.toNat)) :=
    Leads.single fun i s h => h.next hn i s
  have hreduce : Leads step (Working (a.toNat * b.toNat)) 1 (Reducing (a.toNat * b.toNat))
      (Finishing (a.toNat * b.toNat)) :=
    Leads.single fun i s h => h.next hn i s
  have hfinish : Leads step (Working (a.toNat * b.toNat)) 1 (Finishing (a.toNat * b.toNat))
      (Finished (a.toNat * b.toNat % fieldP)) :=
    Leads.single fun i s h => h.next i s
  have htail := hfold1.trans (fun _ h => ⟨h.notDone, h.lossless⟩)
    (hfold2.trans (fun _ h => ⟨h.notDone, h.lossless hn⟩)
      (hreduce.trans (fun _ h => ⟨h.notDone, h.lossless⟩) hfinish))
  have hproduct := hnorm.trans (fun _ h => ⟨h.notDone, h.lossless hn le_rfl⟩)
    (hlast.trans (fun _ h => ⟨h.notDone, h.lossless hn⟩) htail)
  have hcomplete : Leads step (Working (a.toNat * b.toNat)) (33 + (1 + (1 + (1 + (1 + 1)))))
      (Multiplying a b 85) (Finished (a.toNat * b.toNat % fieldP)) :=
    hproduct.mono (fun _ h => h.complete) fun _ h => h
  have hall := hmul.trans (fun _ h => ⟨h.notDone, h.lossless le_rfl⟩) hcomplete
  rw [show 85 + (33 + (1 + (1 + (1 + (1 + 1))))) = 123 from rfl] at hall
  exact hall

/-- A transaction of the core: started in an idle state, it raises `done` for the
first time 124 cycles later, with the product modulo `p`. -/
theorem mul_run {s : State} (hidle : s.state = .idle) (inputs : ℕ → MulInputs)
    (hstart : (inputs 0).start = true) :
    Finished ((inputs 0).a.toNat * (inputs 0).b.toNat % fieldP) (run step inputs s 124) ∧
      ∀ m, 0 < m → m < 124 →
        Working ((inputs 0).a.toNat * (inputs 0).b.toNat) (run step inputs s m) := by
  have hload := load_multiplying hidle hstart
  obtain ⟨hend, hbefore⟩ := mul_leads _ _ (fun k => inputs (k + 1)) _ hload
  refine ⟨by rw [run_succ']; exact hend, ?_⟩
  intro m hpos hlt
  obtain ⟨k, rfl⟩ : ∃ k, m = k + 1 := ⟨m - 1, by omega⟩
  rw [run_succ']
  rcases Nat.eq_zero_or_pos k with rfl | hk
  · exact ⟨hload.notDone, hload.lossless (Nat.zero_le _)⟩
  · exact hbefore k hk (by omega)

end Fe25519MulCore

/-! ### The two cores on the same operands -/

/-- `done` rises for the first time after `n` cycles. -/
def FirstDone (done : ℕ → Bool) (n : ℕ) : Prop :=
  0 < n ∧ done n = true ∧ ∀ m, 0 < m → m < n → done m = false

theorem FirstDone.unique {done : ℕ → Bool} {n n' : ℕ} (h : FirstDone done n)
    (h' : FirstDone done n') : n = n' := by
  obtain ⟨hpos, hdone, hbefore⟩ := h
  obtain ⟨hpos', hdone', hbefore'⟩ := h'
  rcases Nat.lt_trichotomy n n' with hlt | heq | hlt
  · exact absurd hdone (by rw [hbefore' n hpos hlt]; decide)
  · exact heq
  · exact absurd hdone' (by rw [hbefore n' hpos' hlt]; decide)

/-- Started on `(a, b)` in any idle state, the wide core delivers the product
modulo `p`, and so does the narrow core with the same result. -/
def WideCorrect (a b : BitVec 255) : Prop :=
  ∀ s : Fe25519MulWideCore.State, s.state = .idle → ∀ inputs : ℕ → MulInputs,
    inputs 0 = ⟨true, a, b⟩ →
    ∃ n, FirstDone (fun m => (Clocked.run Fe25519MulWideCore.step inputs s m).done) n ∧
      (Clocked.run Fe25519MulWideCore.step inputs s n).result.toNat =
        a.toNat * b.toNat % fieldP ∧
      ∀ s' : Fe25519MulCore.State, s'.state = .idle → ∀ inputs' : ℕ → MulInputs,
        inputs' 0 = ⟨true, a, b⟩ →
        ∃ n', FirstDone (fun m => (Clocked.run Fe25519MulCore.step inputs' s' m).done) n' ∧
          (Clocked.run Fe25519MulCore.step inputs' s' n').result =
            (Clocked.run Fe25519MulWideCore.step inputs s n).result

theorem Fe25519MulWideCore.firstDone {s : Fe25519MulWideCore.State} (hidle : s.state = .idle)
    {inputs : ℕ → MulInputs} {a b : BitVec 255} (hstart : inputs 0 = ⟨true, a, b⟩) :
    FirstDone (fun m => (Clocked.run Fe25519MulWideCore.step inputs s m).done) 25 ∧
      (Clocked.run Fe25519MulWideCore.step inputs s 25).result.toNat =
        settle (folded a.toNat b.toNat) := by
  obtain ⟨hend, hbefore⟩ := mul_run hidle inputs (by rw [hstart])
  have hresult := hend.result
  rw [hstart] at hresult
  exact ⟨⟨by decide, hend.done, hbefore⟩, hresult⟩

theorem Fe25519MulCore.firstDone {s : Fe25519MulCore.State} (hidle : s.state = .idle)
    {inputs : ℕ → MulInputs} {a b : BitVec 255} (hstart : inputs 0 = ⟨true, a, b⟩) :
    FirstDone (fun m => (Clocked.run Fe25519MulCore.step inputs s m).done) 124 ∧
      (Clocked.run Fe25519MulCore.step inputs s 124).result.toNat =
        a.toNat * b.toNat % fieldP := by
  obtain ⟨hend, hbefore⟩ := mul_run hidle inputs (by rw [hstart])
  have hresult := hend.result
  rw [hstart] at hresult
  exact ⟨⟨by decide, hend.done, fun m hpos hlt => (hbefore m hpos hlt).1⟩, hresult⟩

/-- **The narrow core is exact.**  Started on any operands in any idle state it delivers
their product modulo `p`, and on the way nothing overflows: in no cycle before `done` does
an accumulator, the product or a fold lose a bit. -/
theorem Fe25519MulCore.exact_lossless (a b : BitVec 255) {s : Fe25519MulCore.State}
    (hidle : s.state = .idle) {inputs : ℕ → MulInputs} (hstart : inputs 0 = ⟨true, a, b⟩) :
    ∃ n, FirstDone (fun m => (Clocked.run Fe25519MulCore.step inputs s m).done) n ∧
      (Clocked.run Fe25519MulCore.step inputs s n).result.toNat =
        a.toNat * b.toNat % fieldP ∧
      ∀ m, 0 < m → m < n →
        Fe25519MulCore.Lossless (a.toNat * b.toNat) (Clocked.run Fe25519MulCore.step inputs s m) := by
  obtain ⟨hfirst, hresult⟩ := firstDone hidle hstart
  obtain ⟨-, hbefore⟩ := mul_run hidle inputs (by rw [hstart])
  rw [hstart] at hbefore
  exact ⟨124, hfirst, hresult, fun m hpos hlt => (hbefore m hpos hlt).2⟩

/-- `(p - 1) * (p - 1)`, from reset. -/
theorem Fe25519MulCore.exact_lossless_max :
    ∃ n, (Clocked.run Fe25519MulCore.step
      (fun _ => ⟨true, BitVec.ofNat 255 (fieldP - 1), BitVec.ofNat 255 (fieldP - 1)⟩)
      Fe25519MulCore.reset n).result = 1 := by
  let inputs : ℕ → MulInputs :=
    fun _ => ⟨true, BitVec.ofNat 255 (fieldP - 1), BitVec.ofNat 255 (fieldP - 1)⟩
  have hstart : inputs 0 =
      ⟨true, BitVec.ofNat 255 (fieldP - 1), BitVec.ofNat 255 (fieldP - 1)⟩ := rfl
  have hidle : Fe25519MulCore.reset.state = .idle := rfl
  obtain ⟨n, -, hresult, -⟩ := Fe25519MulCore.exact_lossless _ _ hidle hstart
  refine ⟨n, BitVec.eq_of_toNat_eq (hresult.trans ?_)⟩
  decide +kernel

/-- Operands on which the wide core is right do not spill. -/
theorem not_spills_of_wideCorrect {a b : BitVec 255} (h : WideCorrect a b) :
    ¬ Fe25519MulWideCore.Spills a.toNat b.toNat := by
  have hidle : (Fe25519MulWideCore.reset ⟨.idle, .zero, .zero, .zero, .zero, 0, 0, false, .zero,
      0, 0, 0, 0, false, false, false, 0⟩).state = .idle := rfl
  let inputs : ℕ → MulInputs := fun _ => ⟨true, a, b⟩
  have hstart : inputs 0 = ⟨true, a, b⟩ := rfl
  obtain ⟨n, hfirst, hresult, -⟩ := h _ hidle inputs hstart
  obtain ⟨hfirst', hresult'⟩ := Fe25519MulWideCore.firstDone hidle hstart
  obtain rfl := hfirst.unique hfirst'
  rw [hresult'] at hresult
  exact (Fe25519MulWideCore.settle_folded a.isLt b.isLt).mp hresult

/-- The wide core is right on exactly the operands that do not spill. -/
theorem wideCorrect_iff (a b : BitVec 255) :
    WideCorrect a b ↔ ¬ Fe25519MulWideCore.Spills a.toNat b.toNat := by
  constructor
  · exact not_spills_of_wideCorrect
  intro hspill s hidle inputs hstart
  obtain ⟨hfirst, hresult⟩ := Fe25519MulWideCore.firstDone hidle hstart
  have hproduct := (Fe25519MulWideCore.settle_folded a.isLt b.isLt).mpr hspill
  refine ⟨25, hfirst, hresult.trans hproduct, ?_⟩
  intro s' hidle' inputs' hstart'
  obtain ⟨hfirst', hresult'⟩ := Fe25519MulCore.firstDone hidle' hstart'
  refine ⟨124, hfirst', ?_⟩
  apply BitVec.eq_of_toNat_eq
  rw [hresult', hresult, hproduct]

/-- `(p - 1) * (p - 2 ^ 51)` spills: the residue is `2 ^ 51`, its low limb 0. -/
theorem wide_incorrect :
    ¬ WideCorrect (BitVec.ofNat 255 (fieldP - 1)) (BitVec.ofNat 255 (fieldP - 2 ^ 51)) := by
  intro h
  refine not_spills_of_wideCorrect h ?_
  decide +kernel

end Kv260Sigv
