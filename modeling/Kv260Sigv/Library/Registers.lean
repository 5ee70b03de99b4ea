import Mathlib.Data.BitVec
import Mathlib.Tactic.Common

/-!
# Register files and part selects

The two ways a hardware description addresses storage by a computed index: an
array of words and a slice of a wide word.  A read past the end yields zero and a
write past the end is dropped, the two-state reading of the language.
-/

/-- `reg [w-1:0] name [0:n-1]`. -/
abbrev RegFile (n w : ℕ) := Vector (BitVec w) n

namespace RegFile

variable {n w : ℕ}

/-- `name[i]`. -/
def read (file : RegFile n w) (i : ℕ) : BitVec w := file[i]?.getD 0

/-- `name[i] <= v`. -/
def write (file : RegFile n w) (i : ℕ) (v : BitVec w) : RegFile n w := file.setIfInBounds i v

/-- A register file given word by word. -/
def ofFn (f : ℕ → BitVec w) : RegFile n w := Vector.ofFn fun i => f i

/-- All words zero. -/
def zero : RegFile n w := ofFn fun _ => 0

@[simp] theorem read_write_self (file : RegFile n w) {i : ℕ} (v : BitVec w) (h : i < n) :
    (file.write i v).read i = v := by
  simp [read, write, h]

@[simp] theorem read_write_of_ne (file : RegFile n w) {i j : ℕ} (v : BitVec w) (h : j ≠ i) :
    (file.write i v).read j = file.read j := by
  simp [read, write, Ne.symm h]

@[simp] theorem read_ofFn {i : ℕ} (f : ℕ → BitVec w) (h : i < n) :
    (ofFn f : RegFile n w).read i = f i := by
  simp [read, ofFn, h]

@[simp] theorem read_zero {i : ℕ} : (zero : RegFile n w).read i = 0 := by
  by_cases h : i < n
  · exact read_ofFn _ h
  · simp [read, zero, ofFn, Nat.le_of_not_lt h]

/-- A register file is its words. -/
theorem ext {file file' : RegFile n w} (h : ∀ i < n, file.read i = file'.read i) :
    file = file' := by
  apply Vector.ext
  intro i hi
  have := h i hi
  simpa [read, hi] using this

end RegFile

/-- `x[lo +: w] <= v`. -/
def BitVec.writeSlice {n w : ℕ} (x : BitVec n) (lo : ℕ) (v : BitVec w) : BitVec n :=
  (x &&& ~~~((BitVec.allOnes w).setWidth n <<< lo)) ||| (v.setWidth n <<< lo)

/-- A slice write changes the bits of the slice and no others. -/
theorem BitVec.getLsbD_writeSlice {n w : ℕ} (x : BitVec n) (lo : ℕ) (v : BitVec w) {i : ℕ}
    (hi : i < n) :
    (x.writeSlice lo v).getLsbD i =
      if lo ≤ i ∧ i < lo + w then v.getLsbD (i - lo) else x.getLsbD i := by
  simp only [writeSlice, BitVec.getLsbD_or, BitVec.getLsbD_and, BitVec.getLsbD_not,
    BitVec.getLsbD_shiftLeft, BitVec.getLsbD_setWidth, BitVec.getLsbD_allOnes, hi, decide_true,
    Bool.true_and]
  by_cases hlow : i < lo
  · simp [hlow, show ¬ lo ≤ i by omega]
  · by_cases hin : i < lo + w
    · simp [hlow, show lo ≤ i by omega, hin, show i - lo < n by omega, show i - lo < w by omega]
    · have hv : v.getLsbD (i - lo) = false := BitVec.getLsbD_of_ge _ _ (by omega)
      simp [hlow, hin, hv, show ¬ i - lo < w by omega]

/-- Reading back the slice just written. -/
theorem BitVec.extractLsb'_writeSlice_self {n w : ℕ} (x : BitVec n) {lo : ℕ} (v : BitVec w)
    (h : lo + w ≤ n) : (x.writeSlice lo v).extractLsb' lo w = v := by
  apply BitVec.eq_of_getLsbD_eq
  intro i hi
  rw [BitVec.getLsbD_extractLsb', BitVec.getLsbD_writeSlice _ _ _ (by omega),
    if_pos ⟨by omega, by omega⟩, Nat.add_sub_cancel_left]
  simp [hi]

/-- Reading a slice that is disjoint from the one written. -/
theorem BitVec.extractLsb'_writeSlice_of_disjoint {n w k : ℕ} (x : BitVec n) {lo lo' : ℕ}
    (v : BitVec w) (hn : lo' + k ≤ n) (h : lo' + k ≤ lo ∨ lo + w ≤ lo') :
    (x.writeSlice lo v).extractLsb' lo' k = x.extractLsb' lo' k := by
  apply BitVec.eq_of_getLsbD_eq
  intro i hi
  rw [BitVec.getLsbD_extractLsb', BitVec.getLsbD_extractLsb',
    BitVec.getLsbD_writeSlice _ _ _ (by omega), if_neg (by omega)]

/-- Writing a slice above everything that is set adds it. -/
theorem BitVec.toNat_writeSlice {n w : ℕ} {x : BitVec n} {lo : ℕ} {v : BitVec w}
    (hx : x.toNat < 2 ^ lo) (hlo : lo + w ≤ n) :
    (x.writeSlice lo v).toNat = x.toNat + 2 ^ lo * v.toNat := by
  have hkeep : x &&& ~~~((BitVec.allOnes w).setWidth n <<< lo) = x := by
    ext i hi
    by_cases hlow : i < lo
    · simp [hlow]
    · have hbit : x[i] = false := by
        rw [← BitVec.getLsbD_eq_getElem, BitVec.getLsbD]
        exact Nat.testBit_lt_two_pow (lt_of_lt_of_le hx
          (Nat.pow_le_pow_right (by decide) (by omega)))
      simp [hbit]
  have hv := v.isLt
  have hshift : v.toNat <<< lo < 2 ^ n := by
    rw [Nat.shiftLeft_eq]
    calc v.toNat * 2 ^ lo < 2 ^ w * 2 ^ lo := Nat.mul_lt_mul_of_pos_right hv (Nat.two_pow_pos lo)
      _ = 2 ^ (lo + w) := by rw [← pow_add, Nat.add_comm]
      _ ≤ 2 ^ n := Nat.pow_le_pow_right (by decide) hlo
  have hwidth : v.toNat < 2 ^ n :=
    lt_of_lt_of_le hv (Nat.pow_le_pow_right (by decide) (by omega))
  rw [writeSlice, hkeep, BitVec.toNat_or, BitVec.toNat_shiftLeft, BitVec.toNat_setWidth,
    Nat.mod_eq_of_lt hwidth, Nat.mod_eq_of_lt hshift, Nat.or_comm,
    ← Nat.shiftLeft_add_eq_or_of_lt hx, Nat.shiftLeft_eq, Nat.mul_comm, Nat.add_comm]
